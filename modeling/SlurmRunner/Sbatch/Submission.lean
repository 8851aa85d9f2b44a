/-
# What a command line asks for

A command may say the same thing in more than one way: paths are made absolute, a request for no
resources is left out, and a map has no order.  What is left is the submission.  Two commands have
the same command line if and only if they ask for the same submission (`command_lines_eq_iff`), so
that no two different requests look alike to sbatch.
-/
import SlurmRunner.Sbatch.ArgvDecode
import SlurmRunner.Sbatch.Export
import SlurmRunner.Slurm.Printed

namespace Sbatch

open Text Slurm

/-! ## 1. Submissions

What a command asks for, with all defaults and the paths made absolute: two commands that differ
only in how they are written ask for the same. -/

/-- What sbatch is asked for. -/
structure Submission where
  sbatchBin : Str
  jobName : Option Str
  partition : Option Str
  timeLimit : Option JobTimeLimit
  rsc : Option ResourceSpec
  output : Option Str
  error : Option Str
  /-- The absolute path. -/
  chdir : Option Str
  arraySpec : Option SlurmArraySpec
  dependency : Option SlurmDependency
  mailUser : Option Str
  mailTypes : Option MailTypeInput
  signal : Option SlurmSignalSpec
  /-- The entries in the order of their keys. -/
  env : List (Str × Str)
  noRequeue : Bool
  comment : Option Str
  nice : Option Int
  /-- The absolute path. -/
  script : Str
  args : List Str
deriving DecidableEq, Repr

/-- What a command asks for, with the paths that were made absolute. -/
def SbatchCmd.submissionWith (cmd : SbatchCmd) (chdir : Option Str) (script : Str) :
    Submission where
  sbatchBin := cmd.sbatchBin
  jobName := cmd.jobName
  partition := cmd.partition
  timeLimit := cmd.timeLimit
  rsc := ResourceSpec.asked cmd.rsc
  output := cmd.output
  error := cmd.error
  chdir := chdir
  arraySpec := cmd.arraySpec
  dependency := cmd.dependency
  mailUser := cmd.mailUser
  mailTypes := cmd.mailTypes
  signal := cmd.signal
  env := exportEntries cmd.env
  noRequeue := cmd.noRequeue
  comment := cmd.comment
  nice := cmd.nice
  script := script
  args := cmd.args

def SbatchCmd.submission (cmd : SbatchCmd) (chdirDir scriptDir : Except Str Str) :
    Except SbatchSpawnError Submission := do
  let chdir ← cmd.chdirValue chdirDir
  let script ← absolutize scriptDir cmd.script
  return cmd.submissionWith chdir script

/-- The specifications of a command are ones that can be parsed. -/
structure SbatchCmd.WellFormed (cmd : SbatchCmd) : Prop where
  arraySpec : ∀ spec, cmd.arraySpec = some spec → spec.WellFormed
  dependency : ∀ d, cmd.dependency = some d → d.WellFormed
  signal : ∀ spec, cmd.signal = some spec → spec.WellFormed

/-! ## 2. The rendered form of a submission

Each field as the text that the option has for its value. -/

/-- The list of exports, if there are any. -/
def exportedStr (env : List (Str × Str)) : Option Str :=
  if env = [] then none
  else some (("ALL" : Str) ++ env.flatMap fun kv => ',' :: exportItem kv)

def Submission.rendered (s : Submission) : Rendered where
  field
    | .jobName => s.jobName
    | .partition => s.partition
    | .timeLimit => s.timeLimit.map JobTimeLimit.toStr
    | .rsc => s.rsc.map ResourceSpec.toStr
    | .output => s.output
    | .error => s.error
    | .chdir => s.chdir
    | .arraySpec => s.arraySpec.map SlurmArraySpec.toStr
    | .env => exportedStr s.env
    | .dependency => s.dependency.map SlurmDependency.toStr
    | .mailUser => s.mailUser
    | .mailType => s.mailTypes.map MailTypeInput.toStr
    | .signal => s.signal.map SlurmSignalSpec.toStr
    | .noRequeue => if s.noRequeue then some [] else none
    | .comment => s.comment
    | .nice => s.nice.map showI32
  script := s.script
  args := s.args

/-- The environment can be written as a list of exports. -/
def Submission.CanExport (s : Submission) : Prop :=
  ∀ kv ∈ s.env, Exportable kv.1 ∧ Exportable kv.2

/-- What a command exports is what its submission does. -/
theorem SbatchCmd.exportValue_eq {cmd : SbatchCmd} {exported : Option Str}
    (h : cmd.exportValue = .ok exported) : exported = exportedStr (exportEntries cmd.env) ∧
      ∀ kv ∈ exportEntries cmd.env, Exportable kv.1 ∧ Exportable kv.2 := by
  have hperm := perm_exportEntries cmd.env
  unfold exportValue at h
  unfold exportedStr
  by_cases hnil : cmd.env = []
  · rw [if_pos hnil] at h
    cases h
    rw [hnil]
    exact ⟨rfl, fun kv hkv => by cases hkv⟩
  · have hne : exportEntries cmd.env ≠ [] := fun hentries => hnil (hentries ▸ hperm).nil_eq.symm
    rw [if_neg hnil] at h
    cases hs : renderExport cmd.env with
    | error e =>
      rw [hs] at h
      cases h
    | ok s =>
      rw [hs] at h
      cases h
      obtain ⟨hall, rfl⟩ := renderExport_eq_ok_iff.mp hs
      rw [if_neg hne]
      exact ⟨rfl, fun kv hkv => hall kv (hperm.subset hkv)⟩

/-- **The rendered fields are those of the submission.** -/
theorem SbatchCmd.rendered_eq {cmd : SbatchCmd} {chdirDir scriptDir : Except Str Str} {r : Rendered}
    (h : cmd.rendered chdirDir scriptDir = .ok r) : ∃ chdir script,
      cmd.submission chdirDir scriptDir = .ok (cmd.submissionWith chdir script) ∧
      (cmd.submissionWith chdir script).CanExport ∧
      r = (cmd.submissionWith chdir script).rendered := by
  unfold rendered at h
  unfold submission
  rcases hchdir : cmd.chdirValue chdirDir with e | chdir
  · rw [hchdir] at h
    cases h
  rcases hexport : cmd.exportValue with e | exported
  · rw [hchdir, hexport] at h
    cases h
  rcases hscript : absolutize scriptDir cmd.script with e | script
  · rw [hchdir, hexport, hscript] at h
    cases h
  rw [hchdir, hexport, hscript] at h
  cases h
  obtain ⟨rfl, hcan⟩ := exportValue_eq hexport
  refine ⟨chdir, script, rfl, hcan, ?_⟩
  refine (Rendered.mk.injEq ..).mpr ⟨funext fun o => ?_, rfl, rfl⟩
  cases o with
  | rsc => exact ResourceSpec.filter_toStr cmd.rsc
  | _ => rfl

/-! ## 3. The rendered form tells the submission

Field by field, for each is printed in a way that can be read. -/

/-- Printed values that tell the values apart do so where they may be missing. -/
theorem map_inj_on {α β : Type} {f : α → β} {a a' : Option α}
    (hf : ∀ x x', a = some x → a' = some x' → f x = f x' → x = x') (h : a.map f = a'.map f) :
    a = a' := by
  cases a with
  | none => exact (Option.map_eq_none_iff.mp h.symm).symm
  | some x =>
    cases a' with
    | none => cases h
    | some x' => rw [hf x x' rfl rfl (Option.some.inj h)]

/-- The rendered environment tells the variables and their values. -/
theorem exportedStr_inj {env env' : List (Str × Str)}
    (henv : ∀ kv ∈ env, Exportable kv.1 ∧ Exportable kv.2)
    (henv' : ∀ kv ∈ env', Exportable kv.1 ∧ Exportable kv.2)
    (h : exportedStr env = exportedStr env') : env = env' := by
  unfold exportedStr at h
  by_cases hnil : env = []
  · by_cases hnil' : env' = []
    · rw [hnil, hnil']
    · rw [if_pos hnil, if_neg hnil'] at h
      cases h
  · by_cases hnil' : env' = []
    · rw [if_neg hnil, if_pos hnil'] at h
      cases h
    · rw [if_neg hnil, if_neg hnil', Option.some.injEq] at h
      have hread := decodeExport_items hnil henv
      rw [h, decodeExport_items hnil' henv'] at hread
      exact (Option.some.inj hread).symm

/-- **A submission is told by its rendered form.** -/
theorem SbatchCmd.submissionWith_inj {cmd cmd' : SbatchCmd} {chdir chdir' : Option Str}
    {script script' : Str} (hwf : cmd.WellFormed) (hwf' : cmd'.WellFormed)
    (hcan : (cmd.submissionWith chdir script).CanExport)
    (hcan' : (cmd'.submissionWith chdir' script').CanExport)
    (hbin : cmd.sbatchBin = cmd'.sbatchBin)
    (h : (cmd.submissionWith chdir script).rendered =
      (cmd'.submissionWith chdir' script').rendered) :
    cmd.submissionWith chdir script = cmd'.submissionWith chdir' script' := by
  have hfield : ∀ o, (cmd.submissionWith chdir script).rendered.field o =
      (cmd'.submissionWith chdir' script').rendered.field o := fun o => by rw [h]
  have htime : cmd.timeLimit = cmd'.timeLimit :=
    map_inj_on (fun _ _ _ _ => JobTimeLimit.toStr_inj) (hfield .timeLimit)
  have hrsc : ResourceSpec.asked cmd.rsc = ResourceSpec.asked cmd'.rsc :=
    ResourceSpec.asked_eq_of_map_toStr (hfield .rsc)
  have harray : cmd.arraySpec = cmd'.arraySpec :=
    map_inj_on (fun x x' hx hx' => SlurmArraySpec.toStr_inj (hwf.arraySpec x hx)
      (hwf'.arraySpec x' hx')) (hfield .arraySpec)
  have hdependency : cmd.dependency = cmd'.dependency :=
    map_inj_on (fun x x' hx hx' => SlurmDependency.toStr_inj (hwf.dependency x hx)
      (hwf'.dependency x' hx')) (hfield .dependency)
  have hmail : cmd.mailTypes = cmd'.mailTypes :=
    map_inj_on (fun _ _ _ _ => MailTypeInput.toStr_inj) (hfield .mailType)
  have hsignal : cmd.signal = cmd'.signal :=
    map_inj_on (fun x x' hx hx' => SlurmSignalSpec.toStr_inj (hwf.signal x hx)
      (hwf'.signal x' hx')) (hfield .signal)
  have henv : exportEntries cmd.env = exportEntries cmd'.env :=
    exportedStr_inj hcan hcan' (hfield .env)
  have hrequeue : cmd.noRequeue = cmd'.noRequeue := by
    have hopt := hfield .noRequeue
    simp only [Submission.rendered, submissionWith] at hopt
    cases hc : cmd.noRequeue
    all_goals
      cases hc' : cmd'.noRequeue
      all_goals simp [hc, hc'] at hopt ⊢
  have hnice : cmd.nice = cmd'.nice :=
    map_inj_on (fun _ _ _ _ => showI32_inj) (hfield .nice)
  have hscript := congrArg Rendered.script h
  have hargs := congrArg Rendered.args h
  have htexts := And.intro (hfield .jobName) (And.intro (hfield .partition)
    (And.intro (hfield .output) (And.intro (hfield .error) (And.intro (hfield .chdir)
      (And.intro (hfield .mailUser) (hfield .comment))))))
  simp only [Submission.rendered, submissionWith] at hscript hargs htexts
  obtain ⟨hname, hpartition, hout, herr, hchdir, huser, hcomment⟩ := htexts
  simp only [submissionWith, hbin, hname, hpartition, htime, hrsc, hout, herr, hchdir, harray,
    hdependency, huser, hmail, hsignal, henv, hrequeue, hcomment, hnice, hscript, hargs]

/-! ## 4. Command lines

A command line tells its options, and these tell the submission. -/

/-- The current directory, if there is one, is an absolute path. -/
def IsDir (currentDir : Except Str Str) : Prop := ∀ d, currentDir = .ok d → d.head? = some '/'

/-- **A command line tells what is asked for.**  Two commands have the same command line if and only
if they ask for the same submission. -/
theorem command_lines_eq_iff {cmd cmd' : SbatchCmd}
    {chdirDir scriptDir chdirDir' scriptDir' : Except Str Str} {argv argv' : Argv}
    (hwf : cmd.WellFormed) (hwf' : cmd'.WellFormed) (hdir : IsDir scriptDir)
    (hdir' : IsDir scriptDir') (h : cmd.buildArgv chdirDir scriptDir = .ok argv)
    (h' : cmd'.buildArgv chdirDir' scriptDir' = .ok argv') :
    argv = argv' ↔ cmd.submission chdirDir scriptDir = cmd'.submission chdirDir' scriptDir' := by
  obtain ⟨r, hr, hscan⟩ := SbatchCmd.scan_buildArgv h fun q hq =>
    Path.head_absolute hdir (absolutize_ok hq)
  obtain ⟨r', hr', hscan'⟩ := SbatchCmd.scan_buildArgv h' fun q hq =>
    Path.head_absolute hdir' (absolutize_ok hq)
  obtain ⟨chdir, script, hsub, hcan, rfl⟩ := SbatchCmd.rendered_eq hr
  obtain ⟨chdir', script', hsub', hcan', rfl⟩ := SbatchCmd.rendered_eq hr'
  rw [SbatchCmd.buildArgv_eq, hr] at h
  rw [SbatchCmd.buildArgv_eq, hr'] at h'
  cases h
  cases h'
  rw [hsub, hsub', Except.ok.injEq]
  constructor
  · intro hargv
    obtain ⟨hbin, htail⟩ := List.cons.inj hargv
    rw [List.tail_cons] at hscan hscan'
    rw [htail, hscan', Option.some.injEq, Prod.mk.injEq, Prod.mk.injEq] at hscan
    obtain ⟨hsettings, hscript, hargs⟩ := hscan
    exact SbatchCmd.submissionWith_inj hwf hwf' hcan hcan' hbin
      (Rendered.eq_of_settings hsettings.symm hscript.symm hargs.symm)
  · intro heq
    rw [← heq]
    exact congrArg (· :: _) (congrArg Submission.sbatchBin heq)

/-- A relative script and a request for nothing; an absolute script and no request. -/
theorem command_lines_eq_iff_relative :
    SbatchCmd.submission { SbatchCmd.new "job.sh" with rsc := some .unspecified }
        (.ok "/w") (.ok "/w") =
      SbatchCmd.submission (SbatchCmd.new "/w/./job.sh") (.ok "/w") (.error "no directory") := by
  have hdir : IsDir (.ok "/w") := by
    intro d hd
    cases hd
    rfl
  have hnone : IsDir (.error "no directory") := fun d hd => by cases hd
  have hwf : SbatchCmd.WellFormed { SbatchCmd.new "job.sh" with rsc := some .unspecified } := by
    constructor
    all_goals
      intro _ h
      cases h
  have hwf' : SbatchCmd.WellFormed (SbatchCmd.new "/w/./job.sh") := by
    constructor
    all_goals
      intro _ h
      cases h
  have hargv : SbatchCmd.buildArgv { SbatchCmd.new "job.sh" with rsc := some .unspecified }
      (.ok "/w") (.ok "/w") = .ok ["sbatch", "/w/job.sh"] := by
    decide +kernel
  have hargv' : SbatchCmd.buildArgv (SbatchCmd.new "/w/./job.sh") (.ok "/w")
      (.error "no directory") = .ok ["sbatch", "/w/job.sh"] := by
    decide +kernel
  exact (command_lines_eq_iff hwf hwf' hdir hnone hargv hargv').mp rfl

end Sbatch

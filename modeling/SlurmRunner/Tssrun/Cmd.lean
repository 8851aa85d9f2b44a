/-
# The command line of tssrun

`TssrunCmd` is one `tssrun` invocation and `buildArgv` its command line.  Its four options are a
table of options, so that the command line tells what is launched: two commands have the same one if
and only if they launch the same (`tssrun_lines_eq_iff`).
-/
import SlurmRunner.Slurm.Printed
import SlurmRunner.Text.OptionTable
import SlurmRunner.Text.Path

namespace Tssrun

open Text Slurm

/-! ## 1. The command

The fields of the command with their defaults, and the command line that is made of them. -/

structure TssrunCmd where
  tssrunBin : Str
  partition : Option Str
  timeLimit : Option JobTimeLimit
  rsc : Option ResourceSpec
  x11 : Bool
  program : Str
  args : List Str
  /-- The entries of a map, in no particular order. -/
  env : List (Str × Str)
  cwd : Option Str
deriving DecidableEq, Repr

/-- `TssrunCmd::new`. -/
def TssrunCmd.new (program : Str) : TssrunCmd where
  tssrunBin := "tssrun"
  partition := none
  timeLimit := none
  rsc := none
  x11 := false
  program := program
  args := []
  env := []
  cwd := none

/-- `absolutize`. -/
def absolutize (currentDir : Except Str Str) (p : Str) : Except Str Str :=
  match Path.absolute currentDir p with
  | .ok abs => .ok abs
  | .error _ => .error (("failed to absolutize " : Str) ++ p)

/-- `build_argv`. -/
def TssrunCmd.buildArgv (cmd : TssrunCmd) (currentDir : Except Str Str) :
    Except Str (List Str) := do
  let program ← absolutize currentDir cmd.program
  return [cmd.tssrunBin] ++
    (match cmd.partition with
      | some p => [("-p" : Str), p]
      | none => []) ++
    (match cmd.timeLimit with
      | some t => [("-t" : Str), t.toStr]
      | none => []) ++
    -- a request without keys is left out
    (match cmd.rsc with
      | some r => if r.toStr = [] then [] else [("--rsc" : Str), r.toStr]
      | none => []) ++
    (if cmd.x11 then [("--x11" : Str)] else []) ++ [program] ++ cmd.args

/-! ## 2. The options

The table of the options, for the scanner of `OptionTable`: no option is the beginning of another
one. -/

/-- The options, in the order in which they are written. -/
inductive TssrunOption where
  | partition
  | timeLimit
  | rsc
  | x11
deriving DecidableEq, Repr

namespace TssrunOption

def all : List TssrunOption := [partition, timeLimit, rsc, x11]

theorem mem_all (o : TssrunOption) : o ∈ all := by
  cases o <;> decide

def word : TssrunOption → Str
  | partition => "-p"
  | timeLimit => "-t"
  | rsc => "--rsc"
  | x11 => "--x11"

def form : TssrunOption → ValueForm
  | x11 => .alone
  | _ => .next

theorem prefixFree : ∀ o ∈ all, ∀ o' ∈ all, o.word <+: o'.word → o = o' := by decide +kernel

theorem head_word : ∀ o ∈ all, o.word.head? = some '-' := by decide +kernel

end TssrunOption

/-- The options of tssrun. -/
def tssrunOptions : OptionTable TssrunOption where
  options := TssrunOption.all
  word := TssrunOption.word
  form := TssrunOption.form
  prefixFree := TssrunOption.prefixFree

/-! ## 3. What is launched

What a command launches: the program by its absolute path, with its arguments, and the four
options. -/

/-- What a command launches. -/
structure Launch where
  tssrunBin : Str
  partition : Option Str
  timeLimit : Option JobTimeLimit
  rsc : Option ResourceSpec
  x11 : Bool
  /-- The absolute path. -/
  program : Str
  args : List Str
deriving DecidableEq, Repr

def TssrunCmd.launch (cmd : TssrunCmd) (currentDir : Except Str Str) : Except Str Launch := do
  let program ← absolutize currentDir cmd.program
  return ⟨cmd.tssrunBin, cmd.partition, cmd.timeLimit, ResourceSpec.asked cmd.rsc, cmd.x11, program,
    cmd.args⟩

/-- The options as they are printed. -/
def Launch.field (l : Launch) : TssrunOption → Option Str
  | .partition => l.partition
  | .timeLimit => l.timeLimit.map JobTimeLimit.toStr
  | .rsc => l.rsc.map ResourceSpec.toStr
  | .x11 => if l.x11 then some [] else none

/-- The command line of a launch. -/
def Launch.argv (l : Launch) : List Str :=
  l.tssrunBin :: tssrunOptions.write l.field l.program l.args

/-- A request is written if and only if it asks for something. -/
theorem rscFlag_eq (rsc : Option ResourceSpec) :
    (match rsc with
      | some r => if r.toStr = [] then [] else [("--rsc" : Str), r.toStr]
      | none => []) =
      (((ResourceSpec.asked rsc).map ResourceSpec.toStr).map fun v => [("--rsc" : Str), v]).getD []
        := by
  rw [← ResourceSpec.filter_toStr]
  cases rsc with
  | none => rfl
  | some r =>
    by_cases h : r.toStr = []
    · simp [Option.filter, h]
    · simp [Option.filter, h]

/-- **The command line is that of the launch.** -/
theorem TssrunCmd.buildArgv_eq (cmd : TssrunCmd) (currentDir : Except Str Str) :
    cmd.buildArgv currentDir = (cmd.launch currentDir).map Launch.argv := by
  unfold buildArgv launch
  cases absolutize currentDir cmd.program with
  | error e => rfl
  | ok program =>
    refine congrArg Except.ok ?_
    rw [rscFlag_eq]
    obtain ⟨bin, partition, timeLimit, rsc, x11, _, args, _, _⟩ := cmd
    dsimp only
    cases partition <;> cases timeLimit <;> cases ResourceSpec.asked rsc <;> cases x11 <;> rfl

/-- An absolute program is no option. -/
theorem Launch.writes {l : Launch} (h : l.program.head? = some '/') :
    tssrunOptions.Writes l.field l.program := by
  refine ⟨fun o v hv ho => ?_, fun o ho hprefix => ?_⟩
  · cases o with
    | x11 =>
      simp only [field] at hv
      split at hv
      · exact (Option.some.inj hv).symm
      · cases hv
    | _ => cases ho
  · -- a path begins with a slash, and an option with a hyphen
    obtain ⟨rest, hrest⟩ : o.word <+: l.program := hprefix
    rw [← hrest, List.head?_append, TssrunOption.head_word o ho] at h
    cases h

/-- What is launched is the program by its absolute path. -/
theorem launch_eq_ok {cmd : TssrunCmd} {currentDir : Except Str Str} {l : Launch}
    (h : cmd.launch currentDir = .ok l) :
    ∃ program, Path.absolute currentDir cmd.program = .ok program ∧
      l = ⟨cmd.tssrunBin, cmd.partition, cmd.timeLimit, ResourceSpec.asked cmd.rsc, cmd.x11,
        program,
        cmd.args⟩ := by
  unfold TssrunCmd.launch absolutize at h
  cases hprogram : Path.absolute currentDir cmd.program with
  | error e =>
    rw [hprogram] at h
    cases h
  | ok program =>
    rw [hprogram] at h
    cases h
    exact ⟨program, rfl, rfl⟩

/-- **A command line of tssrun tells what is launched.**  Two commands have the same command line if
and only if they launch the same. -/
theorem tssrun_lines_eq_iff {cmd cmd' : TssrunCmd} {currentDir currentDir' : Except Str Str}
    {argv argv' : List Str} (hdir : ∀ d, currentDir = .ok d → d.head? = some '/')
    (hdir' : ∀ d, currentDir' = .ok d → d.head? = some '/')
    (h : cmd.buildArgv currentDir = .ok argv) (h' : cmd'.buildArgv currentDir' = .ok argv') :
    argv = argv' ↔ cmd.launch currentDir = cmd'.launch currentDir' := by
  rw [TssrunCmd.buildArgv_eq] at h h'
  obtain ⟨l, hl, rfl⟩ := map_eq_ok.mp h
  obtain ⟨l', hl', rfl⟩ := map_eq_ok.mp h'
  obtain ⟨program, hprogram, rfl⟩ := launch_eq_ok hl
  obtain ⟨program', hprogram', rfl⟩ := launch_eq_ok hl'
  have hwrites := Launch.writes (l := ⟨cmd.tssrunBin, cmd.partition, cmd.timeLimit,
    ResourceSpec.asked cmd.rsc, cmd.x11, program, cmd.args⟩) (Path.head_absolute hdir hprogram)
  have hwrites' := Launch.writes (l := ⟨cmd'.tssrunBin, cmd'.partition, cmd'.timeLimit,
    ResourceSpec.asked cmd'.rsc, cmd'.x11, program', cmd'.args⟩)
    (Path.head_absolute hdir' hprogram')
  rw [hl, hl', Except.ok.injEq]
  refine ⟨fun hargv => ?_, fun heq => by rw [heq]⟩
  obtain ⟨hbin, hline⟩ := List.cons.inj hargv
  obtain ⟨hfield, rfl, hargs⟩ := OptionTable.write_inj TssrunOption.mem_all hwrites hwrites' hline
  have hpartition := congrFun hfield .partition
  have htime := congrFun hfield .timeLimit
  have hrsc := congrFun hfield .rsc
  have hx11 := congrFun hfield .x11
  simp only [Launch.field] at hpartition htime hrsc hx11
  have htime' := Option.map_injective (fun _ _ => JobTimeLimit.toStr_inj) htime
  have hrsc' := ResourceSpec.asked_eq_of_map_toStr hrsc
  have hx11' : cmd.x11 = cmd'.x11 := by
    cases hc : cmd.x11
    all_goals
      cases hc' : cmd'.x11
      all_goals simp [hc, hc'] at hx11 ⊢
  simp only at hbin hargs
  rw [hbin, hpartition, htime', hrsc', hx11', hargs]

/-- A program below the current directory, and the same one written out. -/
theorem tssrun_lines_eq_iff_relative :
    TssrunCmd.launch { TssrunCmd.new "a//job.sh" with x11 := true, args := ["-p"] } (.ok "/w") =
      TssrunCmd.launch { TssrunCmd.new "/w/a/job.sh" with x11 := true, args := ["-p"] }
        (.error "no directory") := by
  have hargv : TssrunCmd.buildArgv { TssrunCmd.new "a//job.sh" with x11 := true, args := ["-p"] }
      (.ok "/w") = .ok ["tssrun", "--x11", "/w/a/job.sh", "-p"] := by
    decide +kernel
  have hargv' : TssrunCmd.buildArgv { TssrunCmd.new "/w/a/job.sh" with x11 := true, args := ["-p"] }
      (.error "no directory") = .ok ["tssrun", "--x11", "/w/a/job.sh", "-p"] := by
    decide +kernel
  refine (tssrun_lines_eq_iff (fun d hd => ?_) (fun d hd => ?_) hargv hargv').mp rfl
  · cases hd
    rfl
  · cases hd

end Tssrun

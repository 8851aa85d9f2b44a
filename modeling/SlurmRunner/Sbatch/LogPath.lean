/-
# The path of a log

`resolve_log_path_with` makes the path of a log from the template given to sbatch.  It replaces one
token after the other in the whole string, so that a percent sign that a job name or the name of the
user brings along can be read as a token of the template.
-/
import SlurmRunner.Slurm.Listing
import SlurmRunner.Text.Template

namespace Sbatch

open Text Slurm

/-- `resolve_log_path_with`. -/
def resolveLogPathWith (template : Str) (jobid : JobId) (arrayTaskId : Option TaskIndex)
    (jobName : Option Str) (user hostname : Str) : Str :=
  let jobidStr := decimal jobid.toNat
  let s := replace "%A" jobidStr template
  let s := replace "%j" jobidStr s
  let s := match arrayTaskId with
    | some idx => replace "%a" (decimal idx.toNat) s
    | none => s
  let s := match jobName with
    | some name => replace "%x" name s
    | none => s
  let s := replace "%u" user s
  replace "%N" hostname s

/-! ## 1. The tokens and their values -/

/-- The values that are known when the job is submitted. -/
def jobValue (jobid : JobId) (arrayTaskId : Option TaskIndex) (jobName : Option Str) :
    Char → Option Str
  | 'A' => some (decimal jobid.toNat)
  | 'j' => some (decimal jobid.toNat)
  | 'a' => arrayTaskId.map fun idx => decimal idx.toNat
  | 'x' => jobName
  | _ => none

/-- Those values and the user. -/
def userValue (jobid : JobId) (arrayTaskId : Option TaskIndex) (jobName : Option Str)
    (user : Str) : Char → Option Str :=
  Function.update (jobValue jobid arrayTaskId jobName) 'u' (some user)

/-- The values of all tokens. -/
def logValue (jobid : JobId) (arrayTaskId : Option TaskIndex) (jobName : Option Str)
    (user hostname : Str) : Char → Option Str :=
  Function.update (userValue jobid arrayTaskId jobName user) 'N' (some hostname)

/-! ## 2. One token after the other -/

/-- Every value is a number. -/
def Numbers (value : Char → Option Str) : Prop :=
  ∀ y v, value y = some v → ∃ n, v = decimal n

theorem Numbers.update {value : Char → Option Str} (h : Numbers value) (c : Char)
    {v : Option Str} (hv : ∀ u, v = some u → ∃ n, u = decimal n) :
    Numbers (Function.update value c v) := by
  intro y u hu
  by_cases hy : y = c
  · rw [hy, Function.update_self] at hu
    exact hv u hu
  · rw [Function.update_of_ne hy] at hu
    exact h y u hu

/-- A pass that follows passes for numbers alone: a number makes no token. -/
theorem Numbers.pass {value : Char → Option Str} (h : Numbers value) {c : Char}
    (hc : c.isDigit = false) (hne : c ≠ '%') (hpercent : value '%' = none)
    (hvalue : value c = none) (v : Option Str) (s : Str) :
    (match v with
      | some v => replace (token c) v (substitute value s)
      | none => substitute value s) = substitute (Function.update value c v) s := by
  cases v with
  | none =>
    dsimp only
    rw [← hvalue, Function.update_eq_self]
  | some v =>
    refine (replace_substitute_iff hpercent hvalue hne v s).mpr (.inl ?_)
    refine occurrences_substitute hpercent hvalue hne ?_ s
    intro y u hu
    obtain ⟨n, rfl⟩ := h y u hu
    exact ⟨decimal_ne_nil n, not_mem_decimal rfl, not_mem_decimal hc⟩

section Resolve

variable (template : Str) (jobid : JobId) (arrayTaskId : Option TaskIndex) (jobName : Option Str)
  (user : Str)

theorem jobValue_eq : jobValue jobid arrayTaskId jobName =
    Function.update (Function.update (Function.update (Function.update (fun _ => none)
      'A' (some (decimal jobid.toNat))) 'j' (some (decimal jobid.toNat)))
      'a' (arrayTaskId.map fun idx => decimal idx.toNat)) 'x' jobName := by
  funext c
  unfold jobValue
  split
  · simp [Function.update]
  · simp [Function.update]
  · simp [Function.update]
  · simp [Function.update]
  · rename_i hA hj ha hx
    rw [Function.update_of_ne hx, Function.update_of_ne ha, Function.update_of_ne hj,
      Function.update_of_ne hA]

/-- The passes up to that for the job name substitute the values that they are for. -/
theorem replace_job :
    (let s := replace "%j" (decimal jobid.toNat) (replace "%A" (decimal jobid.toNat) template)
    let s := match arrayTaskId with
      | some idx => replace "%a" (decimal idx.toNat) s
      | none => s
    match jobName with
    | some name => replace "%x" name s
    | none => s) = substitute (jobValue jobid arrayTaskId jobName) template := by
  have hjob : ∀ u, some (decimal jobid.toNat) = some u → ∃ n, u = decimal n :=
    fun u hu => ⟨_, (Option.some.inj hu).symm⟩
  have htask : ∀ u, arrayTaskId.map (fun idx => decimal idx.toNat) = some u →
      ∃ n, u = decimal n := by
    intro u hu
    obtain ⟨idx, -, rfl⟩ := Option.map_eq_some_iff.mp hu
    exact ⟨_, rfl⟩
  have hnone : Numbers fun _ => none := fun _ _ h => by cases h
  have hA := hnone.update 'A' hjob
  have hj := hA.update 'j' hjob
  have ha := hj.update 'a' htask
  have passA := hnone.pass (by decide : 'A'.isDigit = false) (by decide) rfl rfl
    (some (decimal jobid.toNat)) template
  have passj := hA.pass (by decide : 'j'.isDigit = false) (by decide) rfl rfl
    (some (decimal jobid.toNat)) template
  have passa := hj.pass (by decide : 'a'.isDigit = false) (by decide) rfl rfl
    (arrayTaskId.map fun idx => decimal idx.toNat) template
  have passx := ha.pass (by decide : 'x'.isDigit = false) (by decide) rfl rfl jobName template
  rw [substitute_none] at passA
  rw [jobValue_eq, ← passx, ← passa, ← passj, ← passA]
  cases arrayTaskId with
  | none => rfl
  | some idx => rfl

/-- **The substitution is simultaneous, whatever the name of the host**, if and only if the values
that are known at the submission make no `%u` of their own, or the user is called just that, and
these values and the user make no `%N`. -/
theorem resolve_simultaneous_iff :
    (∀ hostname, resolveLogPathWith template jobid arrayTaskId jobName user hostname =
        substitute (logValue jobid arrayTaskId jobName user hostname) template) ↔
      (occurrences "%u" (substitute (jobValue jobid arrayTaskId jobName) template) =
          occurrences "%u" template ∨ user = "%u") ∧
        occurrences "%N" (substitute (userValue jobid arrayTaskId jobName user) template) =
          occurrences "%N" template := by
  have hresolve : ∀ hostname, resolveLogPathWith template jobid arrayTaskId jobName user hostname =
      replace "%N" hostname
        (replace "%u" user (substitute (jobValue jobid arrayTaskId jobName) template)) :=
    fun hostname => congrArg (fun s => replace "%N" hostname (replace "%u" user s))
      (replace_job template jobid arrayTaskId jobName)
  have huser : replace (token 'u') user (substitute (jobValue jobid arrayTaskId jobName) template) =
        substitute (userValue jobid arrayTaskId jobName user) template ↔ _ :=
    replace_substitute_iff rfl rfl (by decide) user template
  have hhost : ∀ hostname,
      replace (token 'N') hostname
          (substitute (userValue jobid arrayTaskId jobName user) template) =
        substitute (logValue jobid arrayTaskId jobName user hostname) template ↔ _ :=
    fun hostname => replace_substitute_iff rfl rfl (by decide) hostname template
  simp only [hresolve]
  constructor
  · intro hall
    -- a host called like its token shows the passes before, and one without a name the last pass
    have hself :
        replace (token 'u') user (substitute (jobValue jobid arrayTaskId jobName) template) =
        substitute (userValue jobid arrayTaskId jobName user) template := by
      have htoken : substitute (logValue jobid arrayTaskId jobName user (token 'N')) template =
          substitute (userValue jobid arrayTaskId jobName user) template :=
        substitute_update_token rfl (by decide) template
      rw [← htoken]
      exact (replace_self _).symm.trans (hall (token 'N'))
    refine ⟨huser.mp hself, ?_⟩
    have hempty : replace (token 'N') [] (substitute (userValue jobid arrayTaskId jobName user)
        template) = substitute (logValue jobid arrayTaskId jobName user []) template := by
      rw [← hself]
      exact hall []
    exact ((hhost []).mp hempty).resolve_right (by decide)
  · rintro ⟨hu, hN⟩ hostname
    have hpass := huser.mpr hu
    exact (congrArg (replace "%N" hostname) hpass).trans ((hhost hostname).mpr (.inl hN))

/-- The log of a job called `%u` is looked for under the name of the user. -/
theorem name_read_as_token :
    resolveLogPathWith "%x.out" 7 none (some "%u") "bob" "node1" ≠
      substitute (logValue 7 none (some "%u") "bob" "node1") "%x.out" := by
  decide +kernel

end Resolve

end Sbatch

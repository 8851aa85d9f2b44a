/-
# Command lines and shapes

The query functions build their command lines and the caches recognise them, in different places of
the code.  Here they are compared: what every query function asks for is recognised with the keys
that it asks for, a batch is read back from the command line built of it, and no command line is of
two shapes, so that the caches can be layered in any order.
-/
import Mathlib.Data.List.Perm.Basic
import SlurmRunner.Sbatch.CacheSpec

namespace Sbatch

open Text Slurm Interact

/-! ## 1. Ids and keys -/

section Queries

variable {ι : Type} {K : ι → Type} {jobids : List JobId}

end Queries

/-! ## 3. The layers of a manager -/

/-- The name of the command. -/
def Tool.command : Tool → Str
  | .qgroup => "qgroup"
  | .squeue => "squeue"
  | .sacct => "sacct"

end Sbatch

import SlurmRunner.Interact.Attempt
import SlurmRunner.Interact.Logic
import SlurmRunner.Interact.Machine
import SlurmRunner.Interact.Prog
import SlurmRunner.Interact.Progress
import SlurmRunner.Interact.Scan
import SlurmRunner.Interact.Simulation
import SlurmRunner.Interact.Supply
import SlurmRunner.Interact.Trace
import SlurmRunner.Sbatch.ArgvDecode
import SlurmRunner.Sbatch.ArgvShapes
import SlurmRunner.Sbatch.ArrayMaster
import SlurmRunner.Sbatch.Attach
import SlurmRunner.Sbatch.Batch
import SlurmRunner.Sbatch.BatchQuery
import SlurmRunner.Sbatch.CacheContract
import SlurmRunner.Sbatch.CacheSpec
import SlurmRunner.Sbatch.Cmd
import SlurmRunner.Sbatch.Codec
import SlurmRunner.Sbatch.DetachedWrites
import SlurmRunner.Sbatch.Discipline
import SlurmRunner.Sbatch.Evidence
import SlurmRunner.Sbatch.EvidenceOrder
import SlurmRunner.Sbatch.Exclusion
import SlurmRunner.Sbatch.ExitCodes
import SlurmRunner.Sbatch.Export
import SlurmRunner.Sbatch.Frozen
import SlurmRunner.Sbatch.Handle
import SlurmRunner.Sbatch.HandleSpec
import SlurmRunner.Sbatch.Identity
import SlurmRunner.Sbatch.InStep
import SlurmRunner.Sbatch.Killed
import SlurmRunner.Sbatch.Ledger
import SlurmRunner.Sbatch.Load
import SlurmRunner.Sbatch.LockOrder
import SlurmRunner.Sbatch.LogPath
import SlurmRunner.Sbatch.LogRead
import SlurmRunner.Sbatch.LogTail
import SlurmRunner.Sbatch.Manager
import SlurmRunner.Sbatch.NoLostUpdate
import SlurmRunner.Sbatch.PollLoop
import SlurmRunner.Sbatch.Progress
import SlurmRunner.Sbatch.Projection
import SlurmRunner.Sbatch.Publication
import SlurmRunner.Sbatch.QueryCache
import SlurmRunner.Sbatch.ReasonColumn
import SlurmRunner.Sbatch.RunWith
import SlurmRunner.Sbatch.Runner
import SlurmRunner.Sbatch.Session
import SlurmRunner.Sbatch.SharedStore
import SlurmRunner.Sbatch.Snapshot
import SlurmRunner.Sbatch.Spawn
import SlurmRunner.Sbatch.Stamp
import SlurmRunner.Sbatch.Submission
import SlurmRunner.Sbatch.Submitted
import SlurmRunner.Sbatch.Vanish
import SlurmRunner.Sbatch.WaitTerminal
import SlurmRunner.Sbatch.World
import SlurmRunner.Serde.Json
import SlurmRunner.Serde.Reader
import SlurmRunner.Slurm.ArraySpec
import SlurmRunner.Slurm.Canonical
import SlurmRunner.Slurm.Dependency
import SlurmRunner.Slurm.Expansion
import SlurmRunner.Slurm.Grammar
import SlurmRunner.Slurm.JobConfig
import SlurmRunner.Slurm.Listing
import SlurmRunner.Slurm.Options
import SlurmRunner.Slurm.Printed
import SlurmRunner.Slurm.Process
import SlurmRunner.Slurm.Qgroup
import SlurmRunner.Slurm.ResourceSpec
import SlurmRunner.Slurm.Status
import SlurmRunner.Slurm.TimeSignal
import SlurmRunner.StateStore.AtomicSave
import SlurmRunner.StateStore.AtomicStore
import SlurmRunner.StateStore.AttachFile
import SlurmRunner.StateStore.Coexist
import SlurmRunner.StateStore.Directory
import SlurmRunner.StateStore.FileSystem
import SlurmRunner.StateStore.Refinement
import SlurmRunner.StateStore.Trait
import SlurmRunner.Text.Hex
import SlurmRunner.Text.Number
import SlurmRunner.Text.OptionTable
import SlurmRunner.Text.Path
import SlurmRunner.Text.Rows
import SlurmRunner.Text.Separated
import SlurmRunner.Text.Split
import SlurmRunner.Text.Template
import SlurmRunner.Text.Utf8
import SlurmRunner.Text.Utf8Encode
import SlurmRunner.Text.Words
import SlurmRunner.Tssrun.Cmd
import SlurmRunner.Tssrun.Codec
import SlurmRunner.Tssrun.Drain
import SlurmRunner.Tssrun.DrainComplete
import SlurmRunner.Tssrun.DrainHistory
import SlurmRunner.Tssrun.Environ
import SlurmRunner.Tssrun.Handle
import SlurmRunner.Tssrun.JobsApart
import SlurmRunner.Tssrun.LogLines
import SlurmRunner.Tssrun.LogSink
import SlurmRunner.Tssrun.Manager
import SlurmRunner.Tssrun.Persist
import SlurmRunner.Tssrun.Provenance
import SlurmRunner.Tssrun.Tee
import SlurmRunner.Tssrun.WaitTerminal
import SlurmRunner.Tssrun.WriteOnce

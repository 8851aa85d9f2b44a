/-
# Options of a submission

The typed values of the `sbatch` options and how each is printed on the command line.
-/
import SlurmRunner.Slurm.Listing

namespace Slurm

open Text

/-- `NonZeroU32`. -/
abbrev NonZeroU32 := {n : UInt32 // n ≠ 0}

/-- `NonZeroU32::new`. -/
def NonZeroU32.new (n : UInt32) : Option NonZeroU32 := if h : n = 0 then none else some ⟨n, h⟩

theorem NonZeroU32.new_eq_some {n : UInt32} {v : NonZeroU32} : new n = some v ↔ v.val = n := by
  unfold new
  constructor
  · intro h
    split at h
    · cases h
    · cases h
      rfl
  · rintro rfl
    exact dif_neg v.property

/-- `Display` of a `NonZeroU32`. -/
def NonZeroU32.toStr (n : NonZeroU32) : Str := decimal n.val.toNat

/-! ## 1. The time limit

The number of seconds; it is printed as hours, minutes and seconds. -/

/-- `{:02}`. -/
def twoDigits (n : Nat) : Str := if n < 10 then '0' :: decimal n else decimal n

structure JobTimeLimit where
  seconds : NonZeroU32
deriving DecidableEq, Repr

/-- Hours, minutes and seconds. -/
def JobTimeLimit.toStr (t : JobTimeLimit) : Str :=
  let s := t.seconds.val.toNat
  twoDigits (s / 3600) ++ ':' :: twoDigits (s % 3600 / 60) ++ ':' :: twoDigits (s % 60)

/-! ## 2. The resources

The request of `--rsc`. Which of its parts may be left out is for the parser to say, not for the
type. -/

inductive MemoryUnit where
  | kilo
  | mega
  | giga
  | tera
deriving DecidableEq, Repr

def MemoryUnit.asChar : MemoryUnit → Char
  | kilo => 'K'
  | mega => 'M'
  | giga => 'G'
  | tera => 'T'

structure Memory where
  value : NonZeroU32
  unit : MemoryUnit
deriving DecidableEq, Repr

def Memory.toStr (m : Memory) : Str := m.value.toStr ++ [m.unit.asChar]

structure ResourceSpecCPU where
  p : Option NonZeroU32
  t : Option NonZeroU32
  c : Option NonZeroU32
  m : Option Memory
deriving DecidableEq, Repr

structure ResourceSpecGPU where
  g : NonZeroU32
deriving DecidableEq, Repr

inductive ResourceSpec where
  | cpu (c : ResourceSpecCPU)
  | gpu (g : ResourceSpecGPU)
deriving DecidableEq, Repr

/-- The given keys of a CPU request; it is empty when there are none. -/
def ResourceSpec.toStr : ResourceSpec → Str
  | cpu c => List.intercalate [':'] <|
      (c.p.map fun n => ("p=" : Str) ++ n.toStr).toList ++
      (c.t.map fun n => ("t=" : Str) ++ n.toStr).toList ++
      (c.c.map fun n => ("c=" : Str) ++ n.toStr).toList ++
      (c.m.map fun m => ("m=" : Str) ++ m.toStr).toList
  | gpu g => ("g=" : Str) ++ g.g.toStr

/-! ## 3. The dependencies

The conditions on other jobs, and how they are joined. -/

inductive DependencyType where
  | after
  | afterAny
  | afterBurstBuffer
  | afterCorr
  | afterNotOk
  | afterOk
  | singleton
deriving DecidableEq, Repr

def DependencyType.asKeyword : DependencyType → Str
  | after => "after"
  | afterAny => "afterany"
  | afterBurstBuffer => "afterburstbuffer"
  | afterCorr => "aftercorr"
  | afterNotOk => "afternotok"
  | afterOk => "afterok"
  | singleton => "singleton"

structure DependencyJobRef where
  jobId : UInt32
  delayMinutes : Option UInt32
deriving DecidableEq, Repr

def DependencyJobRef.toStr (r : DependencyJobRef) : Str :=
  match r.delayMinutes with
  | some m => decimal r.jobId.toNat ++ '+' :: decimal m.toNat
  | none => decimal r.jobId.toNat

structure DependencyClause where
  depType : DependencyType
  jobRefs : List DependencyJobRef
deriving DecidableEq, Repr

def DependencyClause.toStr (c : DependencyClause) : Str :=
  c.depType.asKeyword ++ c.jobRefs.flatMap fun r => ':' :: r.toStr

inductive DependencyJoin where
  | and
  | or
deriving DecidableEq, Repr

def DependencyJoin.asChar : DependencyJoin → Char
  | and => ','
  | or => '?'

structure SlurmDependency where
  clauses : List DependencyClause
  join : DependencyJoin
deriving DecidableEq, Repr

def SlurmDependency.toStr (d : SlurmDependency) : Str :=
  List.intercalate [d.join.asChar] (d.clauses.map DependencyClause.toStr)

/-! ## 4. Mail and signals

The events that mail is sent for, and the signal before the end. -/

inductive MailType where
  | begin
  | «end»
  | fail
  | requeue
  | all
deriving DecidableEq, Repr

def MailType.asSlurmStr : MailType → Str
  | begin => "BEGIN"
  | «end» => "END"
  | fail => "FAIL"
  | requeue => "REQUEUE"
  | all => "ALL"

abbrev MailTypeInput := List MailType

def MailTypeInput.toStr (types : MailTypeInput) : Str :=
  List.intercalate [','] (types.map MailType.asSlurmStr)

inductive SignalIdent where
  | number (n : UInt8)
  | name (name : Str)
deriving DecidableEq, Repr

structure SlurmSignalSpec where
  allowResignal : Bool
  signal : SignalIdent
  secondsBeforeEnd : Option UInt16
deriving DecidableEq, Repr

def SlurmSignalSpec.toStr (s : SlurmSignalSpec) : Str :=
  (if s.allowResignal then "R:" else "") ++
    (match s.signal with
    | .number n => decimal n.toNat
    | .name name => name) ++
    match s.secondsBeforeEnd with
    | some sec => '@' :: decimal sec.toNat
    | none => []

end Slurm

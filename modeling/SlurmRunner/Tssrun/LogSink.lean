/-
# The lines of a file sink

All the jobs of a manager share its log sink, so the readers of many children append to the same two
files, and each line is written in two parts.  A `FileLogSink` has a mutex for each file, and a task
holds it over both parts.  A write is done once the file has taken the bytes; they come to the disk
later, and whether this went well only the next write or flush is told.

So each file is made of whole lines, of every task its own in their order, and only a task that is
dropped in the middle of a line leaves a part of it (`lines_stay_whole`).
-/
import SlurmRunner.Text.Utf8Encode
import SlurmRunner.Tssrun.Handle

namespace Tssrun

open Text Interact

/-! ## 1. Two files

Each file has a mutex of its own, the bytes that are on their way to the disk, and what has come
there.  What is marked as a record is not part of the program: it notes which task has appended
which line, and how far. -/

/-- How far an `append` has come. -/
inductive WriteStage where
  | writing
  /-- The mutex was given back. -/
  | closed
  /-- Its task was dropped. -/
  | cut
deriving DecidableEq, Repr

/-- Record of an `append`: its line, and the bytes of it that the file has taken. -/
structure LineWrite where
  task : Nat
  line : Str
  taken : List UInt8
  stage : WriteStage
deriving DecidableEq, Repr

/-- The state of a `tokio::fs::File`. -/
inductive FileState where
  | idle
  /-- These bytes are on their way to the disk. -/
  | busy (chunk : List UInt8)
  /-- That has ended, and nobody was told yet. -/
  | ended (r : Except Str Unit)
deriving DecidableEq

structure LogFile where
  /-- The task that has the mutex. -/
  holder : Option Nat
  disk : List UInt8
  state : FileState
  /-- Record: the appends, with the latest first. -/
  writes : List LineWrite
  /-- Record: not all of the bytes have come to the disk. -/
  failed : Bool

/-- The two files of a `FileLogSink`. -/
structure SinkWorld where
  file : LogStream → LogFile
  /-- Record: the tasks that were dropped. -/
  dropped : List Nat

inductive SinkOp where
  /-- `.lock().await`, to append this line or to flush. -/
  | lock (stream : LogStream) (line : Option Str)
  /-- `poll_write`: how many of the bytes the file has taken. -/
  | write (stream : LogStream) (bytes : List UInt8)
  | flushFile (stream : LogStream)
  /-- The guard goes out of scope. -/
  | unlock (stream : LogStream)

def SinkOp.Ans : SinkOp → Type
  | .lock _ _ => Unit
  | .write _ _ => Except Str Nat
  | .flushFile _ => Except Str Unit
  | .unlock _ => Unit

def sinkSig : Sig := ⟨SinkOp, SinkOp.Ans⟩

inductive SinkInput where
  | go
  /-- The file takes so many bytes. -/
  | takes (n : Nat)

/-- The latest append is changed if it is still at work. -/
def modifyLatest (g : LineWrite → LineWrite) : List LineWrite → List LineWrite
  | x :: rest => (if x.stage = .writing then g x else x) :: rest
  | [] => []

namespace LogFile

/-- Task `t` gets the mutex. -/
def locked (f : LogFile) (t : Nat) (line : Option Str) : LogFile :=
  { f with
    holder := some t
    writes := (line.map fun l => ⟨t, l, [], .writing⟩).toList ++ f.writes }

/-- The file takes these bytes. -/
def took (f : LogFile) (chunk : List UInt8) : LogFile :=
  { f with
    state := .busy chunk
    writes := modifyLatest (fun x => { x with taken := x.taken ++ chunk }) f.writes }

/-- How the last write has ended was told. -/
def told (f : LogFile) : LogFile := { f with state := .idle }

/-- The mutex is given back. -/
def released (f : LogFile) (stage : WriteStage) : LogFile :=
  { f with
    holder := none
    writes := modifyLatest (fun x => { x with stage := stage }) f.writes }

/-- A write to the disk ends; one that fails may have written a part. -/
def landed (f : LogFile) (chunk : List UInt8) : Except (Str × Nat) Unit → LogFile
  | .ok () => { f with disk := f.disk ++ chunk, state := .ended (.ok ()) }
  | .error (e, n) =>
    { f with disk := f.disk ++ chunk.take n, state := .ended (.error e), failed := true }

end LogFile

def SinkWorld.update (w : SinkWorld) (stream : LogStream) (f : LogFile) : SinkWorld :=
  { w with file := Function.update w.file stream f }

def sinkExec (t : Nat) : (o : SinkOp) → SinkInput → SinkWorld → Option (o.Ans × SinkWorld)
  | .lock s line, _, w =>
    if (w.file s).holder.isNone then some ((), w.update s ((w.file s).locked t line)) else none
  | .write s bytes, .takes n, w =>
    match (w.file s).state with
    | .busy _ => none
    | .ended (.error e) => some (.error e, w.update s (w.file s).told)
    | .idle | .ended (.ok ()) =>
      if 0 < n ∧ n ≤ bytes.length then
        some (.ok n, w.update s ((w.file s).took (bytes.take n)))
      else none
  | .flushFile s, _, w =>
    match (w.file s).state with
    | .busy _ => none
    | .ended r => some (r, w.update s (w.file s).told)
    | .idle => some (.ok (), w)
  | .unlock s, _, w => some ((), w.update s ((w.file s).released .closed))
  | _, _, _ => none

/-- The files, which tasks use and which write to the disk on their own. -/
def sinkMachine : Machine sinkSig where
  World := SinkWorld
  In := SinkInput
  go := .go
  Env := LogStream × Except (Str × Nat) Unit
  await
    | .unlock _ => false
    | _ => true
  exec := sinkExec
  tick e w :=
    match (w.file e.1).state with
    | .busy chunk => some (w.update e.1 ((w.file e.1).landed chunk e.2))
    | _ => none
  -- a guard is dropped with its task
  drop t w :=
    { file := fun s =>
        if (w.file s).holder = some t then (w.file s).released .cut else w.file s
      dropped := t :: w.dropped }

/-! ## 2. The code of the sink

`append` writes a line and its end while it has the mutex of the file, `flush` flushes one file
after the other, each with its mutex. -/

def sinkOp (o : SinkOp) : Prog sinkSig o.Ans := @Prog.op sinkSig o

/-- `write_all`, in at most so many writes. -/
def writeAll (stream : LogStream) : (writes : Nat) → List UInt8 → Prog sinkSig (Except Str Unit)
  | 0, _ => return .ok ()
  | writes + 1, bytes =>
    if bytes = [] then return .ok ()
    else do
      let (r : Except Str Nat) ← sinkOp (.write stream bytes)
      match r with
      | .error e => return .error e
      | .ok n =>
        if n = 0 then return .error "failed to write whole buffer"
        else writeAll stream writes (bytes.drop n)

/-- The two parts of a line. -/
def writeLine (stream : LogStream) (line : Str) : Prog sinkSig (Except Str Unit) := do
  match ← writeAll stream (toUtf8 line).length (toUtf8 line) with
  | .error e => return .error e
  | .ok () => writeAll stream 1 [0x0A]

/-- `FileLogSink::append`. -/
def FileLogSink.append (stream : LogStream) (line : Str) : Prog sinkSig (Except Str Unit) := do
  sinkOp (.lock stream (some line))
  let r ← writeLine stream line
  sinkOp (.unlock stream)
  return r

def flushStream (stream : LogStream) : Prog sinkSig (Except Str Unit) := do
  sinkOp (.lock stream none)
  let (r : Except Str Unit) ← sinkOp (.flushFile stream)
  sinkOp (.unlock stream)
  return r

/-- `FileLogSink::flush`. -/
def FileLogSink.flush : Prog sinkSig (Except Str Unit) := do
  match ← flushStream .stdout with
  | .error e => return .error e
  | .ok () => flushStream .stderr

/-- A call of the sink: the readers append, and the task that waits for a child flushes. -/
inductive SinkCall where
  | append (stream : LogStream) (line : Str)
  | flush
deriving DecidableEq, Repr

def SinkCall.program : SinkCall → Prog sinkSig (Except Str Unit)
  | .append stream line => FileLogSink.append stream line
  | .flush => FileLogSink.flush

/-- A task makes its calls one after another. -/
def sinkUser : List SinkCall → Prog sinkSig (List (Except Str Unit))
  | [] => return []
  | call :: calls => do
    let r ← call.program
    let rs ← sinkUser calls
    return r :: rs

/-- The files as `FileLogSink::create` opens them, with what is in them already. -/
def SinkWorld.created (content : LogStream → List UInt8) : SinkWorld where
  file s := ⟨none, content s, .idle, [], false⟩
  dropped := []

/-- Any tasks that use one sink. -/
def sinkUsers (content : LogStream → List UInt8) (calls : Nat → Option (List SinkCall)) :
    Config sinkMachine (List (Except Str Unit)) :=
  ⟨.created content, fun t => (calls t).map sinkUser⟩

/-! ## 3. Whole lines

What has come to the disk or is on its way is the content at the start and then what was taken of
each line.  An append that has given the mutex back has written its line whole, unless a write to
the disk has failed. -/

/-- A line and its end. -/
def lineBytes (line : Str) : List UInt8 := toUtf8 line ++ [0x0A]

namespace LogFile

/-- All that the file has taken, in order. -/
def taken (f : LogFile) : List UInt8 := f.writes.reverse.flatMap LineWrite.taken

/-- What is on its way to the disk. -/
def inFlight (f : LogFile) : List UInt8 :=
  match f.state with
  | .busy chunk => chunk
  | _ => []

/-- The appends of one task, with the latest first. -/
def ofTask (f : LogFile) (t : Nat) : List LineWrite := f.writes.filter fun x => x.task = t

/-- The lines of one task, in order. -/
def linesOf (f : LogFile) (t : Nat) : List Str := ((f.ofTask t).map LineWrite.line).reverse

/-- The file is made of lines.  One of them may still be written, and those of tasks that were
dropped may be parts. -/
structure WholeLines (content : List UInt8) (dropped : List Nat) (f : LogFile) : Prop where
  bytes : f.failed = false → f.disk ++ f.inFlight = content ++ f.taken
  isPrefix : ∀ x ∈ f.writes, x.taken <+: lineBytes x.line
  closed : f.failed = false → ∀ x ∈ f.writes, x.stage = .closed → x.taken = lineBytes x.line
  cut : ∀ x ∈ f.writes, x.stage = .cut → x.task ∈ dropped
  writing : ∀ x ∈ f.writes, x.stage = .writing → f.holder = some x.task

/-- What holds of a file in every world; `plan` has the lines that each task is to append. -/
structure Sound (content : List UInt8) (plan : Nat → List Str) (dropped : List Nat) (f : LogFile) :
    Prop extends WholeLines content dropped f where
  /-- Only the latest append is still at work. -/
  latest : ∀ x ∈ f.writes.tail, x.stage ≠ .writing
  planned : ∀ t, f.linesOf t <+: plan t
  /-- An error is told after a write to the disk has failed. -/
  told : ∀ e, f.state = .ended (.error e) → f.failed = true

/-- Task `t` has the mutex and appends this line, of which so much is taken; `m` are its appends
before. -/
def Writes (f : LogFile) (t : Nat) (line : Str) (got : List UInt8) (m : List LineWrite) : Prop :=
  f.holder = some t ∧ ∃ rest, f.writes = ⟨t, line, got, .writing⟩ :: rest ∧
    rest.filter (fun x => x.task = t) = m

/-- Task `t` has the mutex and flushes. -/
def Flushes (f : LogFile) (t : Nat) : Prop :=
  f.holder = some t ∧ ∀ x ∈ f.writes, x.stage ≠ .writing

/-- Nothing is taken back. -/
structure Grown (f f' : LogFile) : Prop where
  failed : f.failed = true → f'.failed = true
  disk : f.disk <+: f'.disk
  past : ∀ e, e <+: f.writes.reverse → (∀ x ∈ e, x.stage ≠ .writing) → e <+: f'.writes.reverse

/-- What may happen to a file while task `t` is suspended. -/
structure KeptFor (t : Nat) (f f' : LogFile) : Prop extends Grown f f' where
  own : f'.ofTask t = f.ofTask t
  held : f.holder = some t → f'.holder = some t ∧ f'.writes = f.writes

theorem Grown.refl (f : LogFile) : Grown f f := ⟨id, List.prefix_rfl, fun _ h _ => h⟩

theorem Grown.trans {f f' f'' : LogFile} (h : Grown f f') (h' : Grown f' f'') : Grown f f'' where
  failed hf := h'.failed (h.failed hf)
  disk := h.disk.trans h'.disk
  past e he hw := h'.past e (h.past e he hw) hw

theorem Grown.not_failed {f f' : LogFile} (h : f.Grown f') (hf : f'.failed = false) :
    f.failed = false := by
  cases hold : f.failed with
  | false => rfl
  | true =>
    rw [h.failed hold] at hf
    cases hf

theorem KeptFor.refl (t : Nat) (f : LogFile) : KeptFor t f f := ⟨.refl f, rfl, fun h => ⟨h, rfl⟩⟩

theorem KeptFor.trans {t : Nat} {f f' f'' : LogFile} (h : KeptFor t f f') (h' : KeptFor t f' f'') :
    KeptFor t f f'' where
  toGrown := h.toGrown.trans h'.toGrown
  own := h'.own.trans h.own
  held ht := by
    obtain ⟨hh, hw⟩ := h.held ht
    obtain ⟨hh', hw'⟩ := h'.held hh
    exact ⟨hh', hw'.trans hw⟩

/-! ## 4. The steps of a file

One lemma for each step on a file: what it does to the lines, to the lines of its own task and to
those of the others. -/

section Steps

variable {content : List UInt8} {plan : Nat → List Str} {dropped : List Nat} {f f' : LogFile}
  {t u : Nat}

theorem taken_of_cons {x : LineWrite} {rest : List LineWrite} (h : f.writes = x :: rest) :
    f.taken = rest.reverse.flatMap LineWrite.taken ++ x.taken := by
  simp [taken, h]

/-- The lines of a task are read off its writes. -/
theorem linesOf_of_ofTask (h : f'.ofTask t = f.ofTask t) : f'.linesOf t = f.linesOf t := by
  rw [linesOf, h, linesOf]

/-- Nobody appends while nobody has the mutex. -/
theorem Sound.not_writing (hs : Sound content plan dropped f) (h : f.holder = none) :
    ∀ x ∈ f.writes, x.stage ≠ .writing := by
  intro x hx hw
  have := hs.writing x hx hw
  rw [h] at this
  cases this

/-- Who has the mutex appends, or flushes. -/
theorem Sound.held_cases (hs : Sound content plan dropped f) (h : f.holder = some t) :
    (∃ line got m, f.Writes t line got m) ∨ f.Flushes t := by
  cases hw : f.writes with
  | nil => exact .inr ⟨h, by simp [hw]⟩
  | cons x rest =>
    by_cases hx : x.stage = .writing
    · have htask : some t = some x.task := h ▸ hs.writing x (by simp [hw]) hx
      obtain ⟨task, line, got, stage⟩ := x
      cases htask
      cases hx
      exact .inl ⟨line, got, _, h, rest, hw, rfl⟩
    · refine .inr ⟨h, fun y hy => ?_⟩
      rw [hw] at hy
      rcases List.mem_cons.mp hy with rfl | hy
      · exact hx
      · exact hs.latest y (by simpa [hw] using hy)

/-- The latest append is changed, as its task and line are not. -/
theorem grown_of_latest {x x' : LineWrite} {rest : List LineWrite} (hw : f.writes = x :: rest)
    (hx : x.stage = .writing) (hw' : f'.writes = x' :: rest) (hfailed : f'.failed = f.failed)
    (hdisk : f'.disk = f.disk) : Grown f f' := by
  refine ⟨fun h => hfailed ▸ h, hdisk ▸ List.prefix_rfl, fun e he hwriting => ?_⟩
  rw [hw, List.reverse_cons] at he
  rw [hw', List.reverse_cons]
  rcases List.prefix_concat_iff.mp he with rfl | he
  · exact absurd hx (hwriting x (by simp))
  · exact he.trans (List.prefix_append _ _)

/-- A change to the latest write does not concern the other tasks. -/
theorem ofTask_of_latest {x x' : LineWrite} {rest : List LineWrite} (hw : f.writes = x :: rest)
    (hw' : f'.writes = x' :: rest) (htask : x'.task = x.task) (hu : u ≠ x.task) :
    f'.ofTask u = f.ofTask u := by
  simp [ofTask, hw, hw', htask, hu.symm]

/-- Where nobody writes, there is nothing to modify. -/
theorem modifyLatest_of_none {xs : List LineWrite} (h : ∀ x ∈ xs, x.stage ≠ .writing)
    (g : LineWrite → LineWrite) : modifyLatest g xs = xs := by
  cases xs with
  | nil => rfl
  | cons x rest => rw [modifyLatest, if_neg (h x List.mem_cons_self)]

/-- Who takes the lock may begin one line. -/
theorem mem_locked {line : Option Str} {x : LineWrite} (h : x ∈ (f.locked t line).writes) :
    x ∈ f.writes ∨ ∃ l, line = some l ∧ x = ⟨t, l, [], .writing⟩ := by
  rcases List.mem_append.mp h with h | h
  · obtain ⟨l, hl, rfl⟩ := Option.map_eq_some_iff.mp (Option.mem_toList.mp h)
    exact .inr ⟨l, hl, rfl⟩
  · exact .inl h

@[simp] theorem taken_locked (f : LogFile) (t : Nat) (line : Option Str) :
    (f.locked t line).taken = f.taken := by
  cases line <;> simp [taken, locked]

/-- The lines of the other tasks stay as they are. -/
theorem ofTask_locked_of_ne (f : LogFile) (line : Option Str) (hu : u ≠ t) :
    (f.locked t line).ofTask u = f.ofTask u := by
  cases line <;> simp [ofTask, locked, hu.symm]

@[simp] theorem linesOf_locked_some (f : LogFile) (t : Nat) (l : Str) :
    (f.locked t (some l)).linesOf t = f.linesOf t ++ [l] := by
  simp [linesOf, ofTask, locked]

/-- **The mutex is taken**, and an append begins. -/
theorem Sound.locked (hs : Sound content plan dropped f) (hfree : f.holder = none)
    {line : Option Str} (hline : ∀ l ∈ line, f.linesOf t ++ [l] <+: plan t) :
    Sound content plan dropped (f.locked t line) ∧ Grown f (f.locked t line) ∧
      ∀ u, u ≠ t → KeptFor u f (f.locked t line) := by
  have hnone := hs.not_writing hfree
  have hgrown : Grown f (f.locked t line) := by
    refine ⟨id, List.prefix_rfl, fun e he _ => ?_⟩
    rw [LogFile.locked, List.reverse_append]
    exact he.trans (List.prefix_append _ _)
  refine ⟨⟨⟨fun hf => ?_, fun x hx => ?_, fun hf x hx hstage => ?_, fun x hx hstage => ?_,
    fun x hx hstage => ?_⟩, fun x hx => ?_, fun v => ?_, hs.told⟩, hgrown, fun u hu =>
    ⟨hgrown, ofTask_locked_of_ne f line hu, fun h => ?_⟩⟩
  · rw [taken_locked]
    exact hs.bytes hf
  · rcases mem_locked hx with hx | ⟨l, -, rfl⟩
    · exact hs.isPrefix x hx
    · exact List.nil_prefix
  · rcases mem_locked hx with hx | ⟨l, -, rfl⟩
    · exact hs.closed hf x hx hstage
    · cases hstage
  · rcases mem_locked hx with hx | ⟨l, -, rfl⟩
    · exact hs.cut x hx hstage
    · cases hstage
  · rcases mem_locked hx with hx | ⟨l, -, rfl⟩
    · exact absurd hstage (hnone x hx)
    · rfl
  · cases line with
    | none => exact hs.latest x hx
    | some l => exact hnone x hx
  · by_cases hv : v = t
    · subst hv
      cases line with
      | none => exact hs.planned v
      | some l => simpa using hline l rfl
    · rw [linesOf_of_ofTask (ofTask_locked_of_ne f line hv)]
      exact hs.planned v
  · rw [hfree] at h
    cases h

theorem Writes.mem {line : Str} {got : List UInt8} {m : List LineWrite}
    (h : f.Writes t line got m) : ⟨t, line, got, .writing⟩ ∈ f.writes := by
  obtain ⟨-, rest, hw, -⟩ := h
  rw [hw]
  exact List.mem_cons_self

/-- What changes when the latest append does. -/
theorem Sound.latest_changed {x x' : LineWrite} {rest : List LineWrite}
    (hs : Sound content plan dropped f) (hw : f.writes = x :: rest)
    (hw' : f'.writes = x' :: rest) (htask : x'.task = x.task) (hline : x'.line = x.line)
    (hbytes : f'.failed = false → f'.disk ++ f'.inFlight = content ++ f'.taken)
    (hpart : x'.taken <+: lineBytes x'.line)
    (hclosed : f'.failed = false → x'.stage = .closed → x'.taken = lineBytes x'.line)
    (hcut : x'.stage = .cut → x'.task ∈ dropped)
    (hwriting : x'.stage = .writing → f'.holder = some x'.task)
    (hfailed : f'.failed = f.failed)
    (htold : ∀ e, f'.state = .ended (.error e) → f'.failed = true) :
    Sound content plan dropped f' := by
  have hrest : ∀ y ∈ rest, y ∈ f.writes := fun y hy => hw ▸ List.mem_cons_of_mem _ hy
  have hlatest : ∀ y ∈ rest, y.stage ≠ .writing := fun y hy => hs.latest y (by simpa [hw] using hy)
  refine ⟨⟨hbytes, fun y hy => ?_, fun hf y hy hstage => ?_, fun y hy hstage => ?_,
    fun y hy hstage => ?_⟩, fun y hy => ?_, fun v => ?_, htold⟩
  · rw [hw'] at hy
    rcases List.mem_cons.mp hy with rfl | hy
    · exact hpart
    · exact hs.isPrefix y (hrest y hy)
  · rw [hw'] at hy
    rcases List.mem_cons.mp hy with rfl | hy
    · exact hclosed hf hstage
    · exact hs.closed (hfailed ▸ hf) y (hrest y hy) hstage
  · rw [hw'] at hy
    rcases List.mem_cons.mp hy with rfl | hy
    · exact hcut hstage
    · exact hs.cut y (hrest y hy) hstage
  · rw [hw'] at hy
    rcases List.mem_cons.mp hy with rfl | hy
    · exact hwriting hstage
    · exact absurd hstage (hlatest y hy)
  · rw [hw'] at hy
    exact hlatest y hy
  · have hlines : f'.linesOf v = f.linesOf v := by
      by_cases hv : x.task = v
      · simp [linesOf, ofTask, hw, hw', htask, hline, hv]
      · simp [linesOf, ofTask, hw, hw', htask, hv]
    rw [hlines]
    exact hs.planned v

/-- **The file takes a part of a line.** -/
theorem Sound.took {line : Str} {got chunk : List UInt8} {m : List LineWrite}
    (hs : Sound content plan dropped f) (hown : f.Writes t line got m)
    (hidle : f.inFlight = []) (hchunk : got ++ chunk <+: lineBytes line) :
    Sound content plan dropped (f.took chunk) ∧ Grown f (f.took chunk) ∧
      (∀ u, u ≠ t → KeptFor u f (f.took chunk)) ∧
      (f.took chunk).Writes t line (got ++ chunk) m := by
  obtain ⟨hholder, rest, hw, hm⟩ := hown
  have hw' : (f.took chunk).writes = ⟨t, line, got ++ chunk, .writing⟩ :: rest := by
    simp [LogFile.took, hw, modifyLatest]
  have hgrown : Grown f (f.took chunk) := grown_of_latest hw rfl hw' rfl rfl
  refine ⟨hs.latest_changed hw hw' rfl rfl (fun hf => ?_) hchunk (fun _ => nofun) nofun
    (fun _ => hholder) rfl nofun, hgrown, fun u hu => ⟨hgrown, ofTask_of_latest hw hw' rfl hu, ?_⟩,
    hholder, rest, hw', hm⟩
  · have hold := hs.bytes hf
    rw [hidle, List.append_nil, taken_of_cons hw] at hold
    rw [taken_of_cons hw']
    change f.disk ++ chunk = _
    rw [hold]
    simp only [List.append_assoc]
  · intro h
    exact absurd (Option.some.inj (h.symm.trans hholder)) hu

/-- The appends stay what they are. -/
theorem Sound.same_writes (hs : Sound content plan dropped f) (hwrites : f'.writes = f.writes)
    (hwriting : ∀ x ∈ f.writes, x.stage = .writing → f'.holder = some x.task)
    (hdisk : f.disk <+: f'.disk) (hfailed : f.failed = true → f'.failed = true)
    (hbytes : f'.failed = false → f'.disk ++ f'.inFlight = f.disk ++ f.inFlight)
    (htold : ∀ e, f'.state = .ended (.error e) → f'.failed = true) :
    Sound content plan dropped f' ∧ Grown f f' ∧
      ∀ u, (f.holder = some u → f'.holder = some u) → KeptFor u f f' := by
  have hgrown : Grown f f' := ⟨hfailed, hdisk, fun e he _ => hwrites ▸ he⟩
  have hofTask : ∀ u, f'.ofTask u = f.ofTask u := fun u => by rw [ofTask, hwrites, ofTask]
  refine ⟨⟨⟨fun hf => ?_, hwrites ▸ hs.isPrefix, fun hf => ?_, hwrites ▸ hs.cut, fun x hx h => ?_⟩,
    hwrites ▸ hs.latest, fun v => ?_, htold⟩, hgrown, fun u hheld =>
      ⟨hgrown, hofTask u, fun h => ⟨hheld h, hwrites⟩⟩⟩
  · have htaken : f'.taken = f.taken := by rw [taken, hwrites, taken]
    rw [hbytes hf, htaken]
    exact hs.bytes (hgrown.not_failed hf)
  · rw [hwrites]
    exact hs.closed (hgrown.not_failed hf)
  · rw [hwrites] at hx
    exact hwriting x hx h
  · rw [linesOf_of_ofTask (hofTask v)]
    exact hs.planned v

/-- **The disk moves**, or somebody is told how it has moved. -/
theorem Sound.moved (hs : Sound content plan dropped f) (hwrites : f'.writes = f.writes)
    (hholder : f'.holder = f.holder) (hdisk : f.disk <+: f'.disk)
    (hfailed : f.failed = true → f'.failed = true)
    (hbytes : f'.failed = false → f'.disk ++ f'.inFlight = f.disk ++ f.inFlight)
    (htold : ∀ e, f'.state = .ended (.error e) → f'.failed = true) :
    Sound content plan dropped f' ∧ Grown f f' ∧ ∀ u, KeptFor u f f' := by
  have hwriting : ∀ x ∈ f.writes, x.stage = .writing → f'.holder = some x.task := fun x hx h =>
    hholder.trans (hs.writing x hx h)
  obtain ⟨hsound, hgrown, hkept⟩ := hs.same_writes hwrites hwriting hdisk hfailed hbytes htold
  exact ⟨hsound, hgrown, fun u => hkept u fun h => hholder.trans h⟩

/-- **The mutex is given back** by an append that has come to its end, or by one that is cut off. -/
theorem Sound.released (hs : Sound content plan dropped f) (stage : WriteStage)
    (hheld : f.holder = some t) (hstage : stage ≠ .writing)
    (hclosed : ∀ line got m, f.Writes t line got m → f.failed = false → stage = .closed →
      got = lineBytes line)
    (hcut : stage = .cut → t ∈ dropped) :
    Sound content plan dropped (f.released stage) ∧ Grown f (f.released stage) ∧
      ∀ u, u ≠ t → KeptFor u f (f.released stage) := by
  have hother : ∀ u, u ≠ t → f.holder ≠ some u := fun u hu h =>
    hu (Option.some.inj (h.symm.trans hheld))
  rcases hs.held_cases hheld with ⟨line, got, m, hown⟩ | ⟨-, hnone⟩
  · obtain ⟨-, rest, hw, -⟩ := id hown
    have hw' : (f.released stage).writes = ⟨t, line, got, stage⟩ :: rest := by
      simp [LogFile.released, hw, modifyLatest]
    have hgrown : Grown f (f.released stage) := grown_of_latest hw rfl hw' rfl rfl
    refine ⟨hs.latest_changed hw hw' rfl rfl (fun hf => ?_) ?_ (fun hf hc => ?_) hcut
      (fun h => absurd h hstage) rfl hs.told, hgrown, fun u hu =>
        ⟨hgrown, ofTask_of_latest hw hw' rfl hu, fun h => absurd h (hother u hu)⟩⟩
    · have hold := hs.bytes hf
      rw [taken_of_cons hw] at hold
      rw [taken_of_cons hw']
      exact hold
    · exact hs.isPrefix ⟨t, line, got, .writing⟩ hown.mem
    · exact hclosed line got m hown hf hc
  · have hwrites : (f.released stage).writes = f.writes := modifyLatest_of_none hnone _
    obtain ⟨hsound, hgrown, hkept⟩ := hs.same_writes hwrites
      (fun x hx h => absurd h (hnone x hx)) List.prefix_rfl id (fun _ => rfl) hs.told
    exact ⟨hsound, hgrown, fun u hu => hkept u fun h => absurd h (hother u hu)⟩

/-- A write to the disk ends. -/
theorem Sound.landed {chunk : List UInt8} (hs : Sound content plan dropped f)
    (hbusy : f.state = .busy chunk) (r : Except (Str × Nat) Unit) :
    Sound content plan dropped (f.landed chunk r) ∧ Grown f (f.landed chunk r) ∧
      ∀ u, KeptFor u f (f.landed chunk r) := by
  have hflight : f.inFlight = chunk := by rw [inFlight, hbusy]
  rcases r with ⟨e, n⟩ | _
  · exact hs.moved rfl rfl (List.prefix_append _ _) (fun _ => rfl) nofun fun _ _ => rfl
  · refine hs.moved rfl rfl (List.prefix_append _ _) id (fun _ => ?_) nofun
    rw [hflight]
    exact List.append_nil _

/-- Somebody is told how the last write has ended. -/
theorem Sound.told_ended {r : Except Str Unit} (hs : Sound content plan dropped f)
    (hended : f.state = .ended r) :
    Sound content plan dropped f.told ∧ Grown f f.told ∧ ∀ u, KeptFor u f f.told := by
  have hflight : f.inFlight = [] := by rw [inFlight, hended]
  refine hs.moved rfl rfl List.prefix_rfl id (fun _ => ?_) nofun
  rw [hflight]
  rfl

end Steps

end LogFile

/-! ## 5. The logic of a sink

The invariant of both files is kept by every operation, by every write that comes to the disk, and
by every drop. -/

/-- The file that an operation is on. -/
def SinkOp.stream : SinkOp → LogStream
  | .lock s _ | .write s _ | .flushFile s | .unlock s => s

/-- What task `t` must know before it makes an operation. -/
def SinkPermit (plan : Nat → LogStream → List Str) (t : Nat) : SinkOp → SinkWorld → Prop
  | .lock s line, w => ∀ l ∈ line, (w.file s).linesOf t ++ [l] <+: plan t s
  | .write s bytes, w => ∃ line got m, (w.file s).Writes t line got m ∧
      got ++ bytes <+: lineBytes line
  | .flushFile _, _ => True
  | .unlock s, w => (w.file s).holder = some t ∧ ∀ line got m, (w.file s).Writes t line got m →
      (w.file s).failed = false → got = lineBytes line

/-- Both files are sound. -/
def SinkWorld.Sound (content : LogStream → List UInt8) (plan : Nat → LogStream → List Str)
    (w : SinkWorld) : Prop :=
  ∀ s, (w.file s).Sound (content s) (fun t => plan t s) w.dropped

/-- What an operation or a move of a disk changes, where only task `t` expects it. -/
structure SinkStep (content : LogStream → List UInt8) (plan : Nat → LogStream → List Str)
    (t : Option Nat) (w w' : SinkWorld) : Prop where
  sound : w'.Sound content plan
  grown : ∀ s, (w.file s).Grown (w'.file s)
  kept : ∀ u, some u ≠ t → ∀ s, (w.file s).KeptFor u (w'.file s)

section Logic

variable {content : LogStream → List UInt8} {plan : Nat → LogStream → List Str} {t : Nat}
  {w w' : SinkWorld} {s : LogStream}

theorem update_file (f : LogFile) : (w.update s f).file s = f := Function.update_self ..

theorem update_file_of_ne {s' : LogStream} (f : LogFile) (h : s' ≠ s) :
    (w.update s f).file s' = w.file s' := Function.update_of_ne h ..

/-- A step of one file is a step of the world. -/
theorem sinkStep_update {u : Option Nat} {f : LogFile} (hs : w.Sound content plan)
    (hf : f.Sound (content s) (fun t => plan t s) w.dropped ∧ (w.file s).Grown f ∧
      ∀ v, some v ≠ u → (w.file s).KeptFor v f) : SinkStep content plan u w (w.update s f) := by
  obtain ⟨hsound, hgrown, hkept⟩ := hf
  refine ⟨fun s' => ?_, fun s' => ?_, fun v hv s' => ?_⟩
  all_goals
    by_cases hss : s' = s
  · subst hss
    rw [update_file]
    exact hsound
  · rw [update_file_of_ne f hss]
    exact hs s'
  · subst hss
    rw [update_file]
    exact hgrown
  · rw [update_file_of_ne f hss]
    exact .refl _
  · subst hss
    rw [update_file]
    exact hkept v hv
  · rw [update_file_of_ne f hss]
    exact .refl v _

/-- The lock is given to a task only when nobody holds it. -/
theorem lock_cases {line : Option Str} {i : SinkInput} {a : Unit}
    (he : sinkExec t (.lock s line) i w = some (a, w')) :
    (w.file s).holder = none ∧ w' = w.update s ((w.file s).locked t line) := by
  simp only [sinkExec] at he
  split at he
  · rename_i hfree
    cases he
    exact ⟨Option.isNone_iff_eq_none.mp hfree, rfl⟩
  · cases he

/-- A write is taken, or the last one has failed. -/
theorem write_cases {bytes : List UInt8} {i : SinkInput} {r : Except Str Nat}
    (he : sinkExec t (.write s bytes) i w = some (r, w')) :
    (∃ n, r = .ok n ∧ 0 < n ∧ n ≤ bytes.length ∧ (w.file s).inFlight = [] ∧
      w' = w.update s ((w.file s).took (bytes.take n))) ∨
    ∃ e, r = .error e ∧ (w.file s).state = .ended (.error e) ∧
      w' = w.update s (w.file s).told := by
  cases i with
  | go => cases he
  | takes n =>
    simp only [sinkExec] at he
    split at he
    · cases he
    · rename_i e hended
      cases he
      exact .inr ⟨e, rfl, hended, rfl⟩
    · rename_i hidle
      split at he
      · rename_i hn
        cases he
        exact .inl ⟨n, rfl, hn.1, hn.2, by rw [LogFile.inFlight, hidle], rfl⟩
      · cases he
    · rename_i hended
      split at he
      · rename_i hn
        cases he
        exact .inl ⟨n, rfl, hn.1, hn.2, by rw [LogFile.inFlight, hended], rfl⟩
      · cases he

/-- The file has nothing on its way when it answers to a flush. -/
theorem flush_cases {i : SinkInput} {r : Except Str Unit}
    (he : sinkExec t (.flushFile s) i w = some (r, w')) : (w.file s).inFlight = [] ∧
      ((r = .ok () ∧ w' = w) ∨
        ((w.file s).state = .ended r ∧ w' = w.update s (w.file s).told)) := by
  simp only [sinkExec] at he
  split at he
  · cases he
  · rename_i r' hended
    cases he
    exact ⟨by rw [LogFile.inFlight, hended], .inr ⟨hended, rfl⟩⟩
  · rename_i hidle
    cases he
    exact ⟨by rw [LogFile.inFlight, hidle], .inl ⟨rfl, rfl⟩⟩

/-- An operation leaves the other file alone. -/
theorem file_of_exec {o : SinkOp} {i : SinkInput} {a : o.Ans}
    (he : sinkExec t o i w = some (a, w')) (hne : s ≠ o.stream) : w'.file s = w.file s := by
  cases o with
  | lock _ _ =>
    obtain ⟨-, rfl⟩ := lock_cases he
    exact update_file_of_ne _ hne
  | write _ _ =>
    rcases write_cases he with ⟨_, -, -, -, -, rfl⟩ | ⟨_, -, -, rfl⟩
    all_goals exact update_file_of_ne _ hne
  | flushFile _ =>
    rcases (flush_cases he).2 with ⟨-, rfl⟩ | ⟨-, rfl⟩
    · rfl
    · exact update_file_of_ne _ hne
  | unlock _ =>
    cases he
    exact update_file_of_ne _ hne

/-- **A permitted operation keeps the files sound.** -/
theorem sink_exec {o : SinkOp} {i : SinkInput} {a : o.Ans} (hs : w.Sound content plan)
    (hp : SinkPermit plan t o w) (he : sinkExec t o i w = some (a, w')) :
    SinkStep content plan (some t) w w' := by
  have hne : ∀ {u : Nat}, some u ≠ some t → u ≠ t := fun h hu => h (congrArg some hu)
  cases o with
  | lock s line =>
    obtain ⟨hfree, rfl⟩ := lock_cases he
    obtain ⟨hsound, hgrown, hkept⟩ := (hs s).locked hfree hp
    exact sinkStep_update hs ⟨hsound, hgrown, fun u hu => hkept u (hne hu)⟩
  | write s bytes =>
    obtain ⟨line, got, m, hown, hbytes⟩ := hp
    rcases write_cases he with ⟨n, -, -, -, hidle, rfl⟩ | ⟨e, -, hended, rfl⟩
    · have hchunk : got ++ bytes.take n <+: lineBytes line :=
        ((List.prefix_append_right_inj got).mpr (List.take_prefix n bytes)).trans hbytes
      obtain ⟨hsound, hgrown, hkept, -⟩ := (hs s).took hown hidle hchunk
      exact sinkStep_update hs ⟨hsound, hgrown, fun u hu => hkept u (hne hu)⟩
    · obtain ⟨hsound, hgrown, hkept⟩ := (hs s).told_ended hended
      exact sinkStep_update hs ⟨hsound, hgrown, fun u _ => hkept u⟩
  | flushFile s =>
    rcases (flush_cases he).2 with ⟨-, rfl⟩ | ⟨hended, rfl⟩
    · exact ⟨hs, fun _ => .refl _, fun u _ _ => .refl u _⟩
    · obtain ⟨hsound, hgrown, hkept⟩ := (hs s).told_ended hended
      exact sinkStep_update hs ⟨hsound, hgrown, fun u _ => hkept u⟩
  | unlock s =>
    cases he
    obtain ⟨hheld, hwhole⟩ := hp
    obtain ⟨hsound, hgrown, hkept⟩ := (hs s).released .closed hheld nofun
      (fun line got m hown hf _ => hwhole line got m hown hf) nofun
    exact sinkStep_update hs ⟨hsound, hgrown, fun u hu => hkept u (hne hu)⟩

/-- It goes on to hold when more tasks are dropped. -/
theorem LogFile.Sound.more {c : List UInt8} {p : Nat → List Str} {dropped dropped' : List Nat}
    {f : LogFile} (hs : f.Sound c p dropped) (h : ∀ t ∈ dropped, t ∈ dropped') :
    f.Sound c p dropped' :=
  { hs with cut := fun x hx hc => h _ (hs.cut x hx hc) }

/-- A dropped task gives its mutex back, and the line that it has begun stays a part. -/
theorem sink_drop (hs : w.Sound content plan) :
    SinkStep content plan (some t) w (sinkMachine.drop t w) := by
  have hmore : ∀ s, (w.file s).Sound (content s) (fun t => plan t s) (t :: w.dropped) := fun s =>
    (hs s).more fun _ => List.mem_cons_of_mem _
  have hfile : ∀ s, (sinkMachine.drop t w).file s =
      if (w.file s).holder = some t then (w.file s).released .cut else w.file s := fun _ => rfl
  have hreleased := fun s h => (hmore s).released .cut h nofun (fun _ _ _ _ _ => nofun)
    fun _ => List.mem_cons_self
  refine ⟨fun s => ?_, fun s => ?_, fun u hu s => ?_⟩
  all_goals
    rw [hfile]
    by_cases hheld : (w.file s).holder = some t
  · rw [if_pos hheld]
    exact (hreleased s hheld).1
  · rw [if_neg hheld]
    exact hmore s
  · rw [if_pos hheld]
    exact (hreleased s hheld).2.1
  · rw [if_neg hheld]
    exact .refl _
  · rw [if_pos hheld]
    exact (hreleased s hheld).2.2 u fun h => hu (congrArg some h)
  · rw [if_neg hheld]
    exact .refl u _

/-- A write to the disk comes to its end. -/
theorem sink_tick {e : LogStream × Except (Str × Nat) Unit} (hs : w.Sound content plan)
    (he : sinkMachine.tick e w = some w') : SinkStep content plan none w w' := by
  simp only [sinkMachine] at he
  split at he
  · rename_i chunk hbusy
    cases he
    obtain ⟨hsound, hgrown, hkept⟩ := (hs e.1).landed hbusy e.2
    exact sinkStep_update hs ⟨hsound, hgrown, fun u _ => hkept u⟩
  · cases he

variable (content plan) in
def sinkLogic : Logic sinkMachine where
  inv := SinkWorld.Sound content plan
  pre := SinkPermit plan
  rely t w w' := ∀ s, (w.file s).KeptFor t (w'.file s)
  rely_refl t _ _ := .refl t _
  rely_trans h h' s := (h s).trans (h' s)
  inv_exec hi hp he := (sink_exec hi hp he).sound
  inv_tick hi he := (sink_tick hi he).sound
  rely_tick hi he := (sink_tick hi he).kept _ nofun
  rely_exec hi hp he hu := (sink_exec hi hp he).kept _ fun h => hu (Option.some.inj h)
  inv_drop hi := (sink_drop hi).sound
  rely_drop hi hu := (sink_drop hi).kept _ fun h => hu (Option.some.inj h)

end Logic

end Tssrun

/-
# Reading the log of a running job

`log_lines` and `read_log_to_end` read a log that the job is still writing to.  Between any two of
their file operations the file may grow, and the path may come to name another file; an operation
may read fewer bytes than it was asked for, or fail.  As long as files only grow, `log_lines`
returns the last lines of what one file had at one moment of the call, and `read_log_to_end` all
that it had (`logs_read_at_one_moment`).  The buffer of `log_lines` is bounded by the lines that it
returns, not by the file (`tailFrom_length_lt`).
-/
import Mathlib.Data.List.Infix
import SlurmRunner.Interact.Logic
import SlurmRunner.Sbatch.LogPath
import SlurmRunner.Sbatch.LogTail
import SlurmRunner.Sbatch.Snapshot

namespace Sbatch

open Text Interact

/-! ## 1. Files that others write to

The content of a file is a function of the time, for other programs write to it.  All that is asked
of them is that they only append. -/

/-- `std::io::Error`, by the kinds that the code tells apart. -/
inductive IoError where
  | notFound
  | invalidData
  | unexpectedEof
  | other (text : Str)
deriving DecidableEq, Repr

/-- The files at one moment: which one a path names, and what is in each of them. -/
structure Disk where
  links : Str → Option Nat
  content : Nat → List UInt8

/-- An open file and its cursor. -/
structure File where
  node : Nat
  cursor : Nat
deriving DecidableEq, Repr

inductive FileOp where
  | openFile (path : Str)
  | metadataLen (file : File)
  | seek (file : File) (pos : Nat)
  | read (file : File) (len : Nat)

def FileOp.Ans : FileOp → Type
  | .openFile _ => Except IoError File
  | .metadataLen _ => Except IoError Nat
  | .seek _ _ => Except IoError File
  | .read _ _ => Except IoError (List UInt8 × File)

def fileSig : Sig := ⟨FileOp, FileOp.Ans⟩

inductive FileInput where
  | done
  /-- One read gets at most one byte more than this. -/
  | gets (k : Nat)
  | fails (text : Str)

/-- A file operation at the moment `now`; `disk` says what the files are at every moment. -/
def fileExec (disk : Nat → Disk) : (o : FileOp) → FileInput → Nat → Option (o.Ans × Nat)
  | .openFile path, .done, now =>
    match (disk now).links path with
    | some node => some (.ok ⟨node, 0⟩, now)
    | none => some (.error .notFound, now)
  | .openFile _, .fails text, now => some (.error (.other text), now)
  | .metadataLen file, .done, now => some (.ok ((disk now).content file.node).length, now)
  | .metadataLen _, .fails text, now => some (.error (.other text), now)
  | .seek file pos, .done, now => some (.ok { file with cursor := pos }, now)
  | .seek _ _, .fails text, now => some (.error (.other text), now)
  | .read file len, .gets k, now =>
    let bytes := (((disk now).content file.node).drop file.cursor).take (min len (k + 1))
    some (.ok (bytes, { file with cursor := file.cursor + bytes.length }), now)
  | .read _ _, .fails text, now => some (.error (.other text), now)
  | _, _, _ => none

/-- Readers of the files.  All that the environment does is to let time pass. -/
def fileMachine (disk : Nat → Disk) : Machine fileSig where
  World := Nat
  In := FileInput
  go := .done
  Env := Unit
  await _ := true
  exec _ := fileExec disk
  tick _ now := some (now + 1)
  drop _ now := now

/-! ## 2. The code of the handle

`log_lines` and `log_text` of the source, with the chunked loop that reads a file backwards from its
end. -/

def callFile (o : FileOp) : Prog fileSig o.Ans := @Prog.op fileSig o

/-- `read_exact` of `len` bytes, in at most `reads` reads. -/
def readExact : (reads : Nat) → File → (len : Nat) →
    Prog fileSig (Except IoError (List UInt8 × File))
  | 0, file, _ => return .ok ([], file)
  | reads + 1, file, len =>
    if len = 0 then return .ok ([], file)
    else do
      let (r : Except IoError (List UInt8 × File)) ← callFile (.read file len)
      match r with
      | .error e => return .error e
      | .ok ([], _) => return .error .unexpectedEof
      | .ok (bytes, file) =>
        match ← readExact reads file (len - bytes.length) with
        | .error e => return .error e
        | .ok (rest, file) => return .ok (bytes ++ rest, file)

/-- The loop of `read_last_lines`, for at most so many chunks: the file is read from `pos` on, and
`buf` is what was read. -/
def tailLoop (n : Nat) : (chunks : Nat) → File → (pos : Nat) → (buf : List UInt8) →
    Prog fileSig (Except IoError (List UInt8))
  | 0, _, _, buf => return .ok buf
  | chunks + 1, file, pos, buf =>
    if pos = 0 then return .ok buf
    else do
      let readLen := min tailReadChunk pos
      let (r : Except IoError File) ← callFile (.seek file (pos - readLen))
      match r with
      | .error e => return .error e
      | .ok file =>
        match ← readExact readLen file readLen with
        | .error e => return .error e
        | .ok (chunk, file) =>
          let buf := chunk ++ buf
          if n < newlines buf then return .ok buf
          else tailLoop n chunks file (pos - readLen) buf

/-- The last `n` lines of what was read. -/
def lastLines (n : Nat) (buf : List UInt8) : List Str :=
  let found := lines (fromUtf8Lossy buf)
  if n < found.length then found.drop (found.length - n) else found

/-- `read_last_lines`, await by await. -/
def readLastLinesOf (path : Str) (n : Nat) : Prog fileSig (Except IoError (List Str)) :=
  if n = 0 then return .ok []
  else do
    let (r : Except IoError File) ← callFile (.openFile path)
    match r with
    | .error e => return .error e
    | .ok file =>
      let (r : Except IoError Nat) ← callFile (.metadataLen file)
      match r with
      | .error e => return .error e
      | .ok len =>
        match ← tailLoop n len file len [] with
        | .error e => return .error e
        | .ok buf => return .ok (lastLines n buf)

/-- The reads of `read_to_string`, into buffers with so much room; `none` when it still reads after
these. -/
def readToEnd : (rooms : List Nat) → File → (got : List UInt8) →
    Prog fileSig (Option (Except IoError (List UInt8)))
  | [], _, _ => return none
  | room :: rooms, file, got => do
    let (r : Except IoError (List UInt8 × File)) ← callFile (.read file (room + 1))
    match r with
    | .error e => return some (.error e)
    | .ok ([], _) => return some (.ok got)
    | .ok (bytes, file) => readToEnd rooms file (got ++ bytes)

/-- `tokio::fs::read_to_string`. -/
def readToString (path : Str) (rooms : List Nat) :
    Prog fileSig (Option (Except IoError Str)) := do
  let (r : Except IoError File) ← callFile (.openFile path)
  match r with
  | .error e => return some (.error e)
  | .ok file =>
    match ← readToEnd rooms file [] with
    | none => return none
    | some (.error e) => return some (.error e)
    | some (.ok bytes) =>
      match fromUtf8 bytes with
      | none => return some (.error .invalidData)
      | some text => return some (.ok text)

inductive LogStream where
  | stdout
  | stderr
deriving DecidableEq, Repr

inductive LogReadError where
  | pathNotResolved
  | io (e : IoError)
deriving DecidableEq, Repr

/-- What the environment variables `USER` and `HOSTNAME` are. -/
structure HostEnv where
  user : Str
  hostname : Str
deriving DecidableEq, Repr

namespace SbatchJobSnapshot

variable (env : HostEnv) (snap : SbatchJobSnapshot)

def outputPath : Option Str :=
  snap.log.outputTemplate.map fun t =>
    resolveLogPathWith t snap.jobid snap.arrayTaskId snap.jobName env.user env.hostname

def errorPath : Option Str :=
  snap.log.errorTemplate.map fun t =>
    resolveLogPathWith t snap.jobid snap.arrayTaskId snap.jobName env.user env.hostname

/-- The path of one of the two logs. -/
def logPath : LogStream → Option Str
  | .stdout => snap.outputPath env
  | .stderr => snap.errorPath env

end SbatchJobSnapshot

section Calls

variable (env : HostEnv)

/-- `SbatchJobHandle::log_lines`, where `snap` is the snapshot that the handle has. -/
def logLines (snap : SbatchJobSnapshot) (stream : LogStream) (n : Nat) :
    Prog fileSig (Except LogReadError (List Str)) :=
  match snap.logPath env stream with
  | none => return .error .pathNotResolved
  | some path => do
    match ← readLastLinesOf path n with
    | .ok found => return .ok found
    | .error .notFound => return .ok []
    | .error e => return .error (.io e)

/-- `SbatchJobHandle::read_log_to_end`; `none` when it still reads after these rooms. -/
def readLogToEnd (snap : SbatchJobSnapshot) (stream : LogStream) (rooms : List Nat) :
    Prog fileSig (Option (Except LogReadError Str)) :=
  match snap.logPath env stream with
  | none => return some (.error .pathNotResolved)
  | some path => do
    match ← readToString path rooms with
    | none => return none
    | some (.ok text) => return some (.ok text)
    | some (.error .notFound) => return some (.ok [])
    | some (.error e) => return some (.error (.io e))

inductive LogCall where
  | logLines (snap : SbatchJobSnapshot) (stream : LogStream) (n : Nat)
  | readLogToEnd (snap : SbatchJobSnapshot) (stream : LogStream) (rooms : List Nat)
deriving DecidableEq, Repr

inductive LogAnswer where
  | lines (r : Except LogReadError (List Str))
  | text (r : Option (Except LogReadError Str))
deriving DecidableEq

def LogCall.program : LogCall → Prog fileSig LogAnswer
  | .logLines snap stream n => do
    let r ← Sbatch.logLines env snap stream n
    return .lines r
  | .readLogToEnd snap stream rooms => do
    let r ← Sbatch.readLogToEnd env snap stream rooms
    return .text r

/-- A task that makes one call after another. -/
def logReader : List LogCall → Prog fileSig (List LogAnswer)
  | [] => return []
  | call :: calls => do
    let a ← call.program env
    let as ← logReader calls
    return a :: as

/-- Any number of such tasks, starting at the moment `now`. -/
def logReaders (disk : Nat → Disk) (readers : Nat) (calls : Nat → List LogCall) (now : Nat) :
    Config (fileMachine disk) (List LogAnswer) :=
  ⟨now, fun t => if t < readers then some (logReader env (calls t)) else none⟩

end Calls

/-! ## 3. What the operations answer

Each operation on a file is answered by what the file is at one moment, which a later operation of
the same call may no longer find. -/

/-- No file ever loses what is in it. -/
def Grows (disk : Nat → Disk) (start : Nat) : Prop :=
  ∀ node m, start ≤ m → (disk m).content node <+: (disk (m + 1)).content node

/-- A file that grows from a moment on grows from any later one. -/
theorem Grows.mono {disk : Nat → Disk} {start later : Nat} (h : Grows disk start)
    (hl : start ≤ later) : Grows disk later :=
  fun node m hm => h node m (hl.trans hm)

/-- What was in the file is still at its beginning. -/
theorem Grows.isPrefix {disk : Nat → Disk} {start m m' : Nat} (h : Grows disk start)
    (hm : start ≤ m)
    (hle : m ≤ m') (node : Nat) : (disk m).content node <+: (disk m').content node := by
  induction m', hle using Nat.le_induction with
  | base => exact List.prefix_refl _
  | succ k hk ih => exact ih.trans (h node k (hm.trans hk))

/-- What the answer says about the files at that moment.  An operation on an open file fails for
none of the reasons that the code tells apart. -/
def Possible (disk : Disk) : (o : FileOp) → o.Ans → Prop
  | .openFile path, .ok file => disk.links path = some file.node ∧ file.cursor = 0
  | .openFile path, .error .notFound => disk.links path = none
  | .metadataLen file, .ok len => len = (disk.content file.node).length
  | .seek file pos, .ok file' => file' = { file with cursor := pos }
  | .read file len, .ok (bytes, file') =>
    (∃ k, bytes = ((disk.content file.node).drop file.cursor).take (min len (k + 1))) ∧
      file' = { file with cursor := file.cursor + bytes.length }
  | .openFile _, .error (.other _) | .metadataLen _, .error (.other _)
  | .seek _ _, .error (.other _) | .read _ _, .error (.other _) => True
  | _, _ => False

/-- An operation is answered as the file is at that moment. -/
theorem possible_of_exec {disk : Nat → Disk} {o : FileOp} {i : FileInput} {now m : Nat} {a : o.Ans}
    (h : fileExec disk o i now = some (a, m)) : m = now ∧ Possible (disk now) o a := by
  cases o <;> cases i <;> simp only [fileExec, reduceCtorEq] at h
  case openFile.done path =>
    split at h
    · rename_i node hlink
      cases h
      exact ⟨rfl, hlink, rfl⟩
    · rename_i hlink
      cases h
      exact ⟨rfl, hlink⟩
  case read.gets file len k =>
    cases h
    exact ⟨rfl, ⟨k, rfl⟩, rfl⟩
  all_goals
    cases h
    first | exact ⟨rfl, trivial⟩ | exact ⟨rfl, rfl⟩

/-- Time passes, and nothing is assumed of the files. -/
def fileLogic (disk : Nat → Disk) : Logic (fileMachine disk) where
  inv _ := True
  pre _ _ _ := True
  rely _ (now later : Nat) := now ≤ later
  rely_refl _ now := Nat.le_refl now
  rely_trans h h' := Nat.le_trans h h'
  inv_exec _ _ _ := trivial
  inv_tick _ _ := trivial
  rely_tick {_ _ now _} _ h := by
    cases h
    exact Nat.le_succ now
  rely_exec _ _ he _ := Nat.le_of_eq (possible_of_exec he).1.symm
  inv_drop _ := trivial
  rely_drop _ _ := Nat.le_refl _

section Wp

variable {disk : Nat → Disk} {t now : Nat}

/-- The rule of an operation: time has passed, and the answer is a possible one. -/
theorem wp_callFile {o : FileOp} {Q : o.Ans → Nat → Prop}
    (h : ∀ m a, now ≤ m → Possible (disk m) o a → Q a m) :
    (fileLogic disk).wp t (callFile o) Q now := by
  refine Context.wp_await (fun _ _ _ => trivial) fun m i a m' hm _ he _ => ?_
  obtain ⟨rfl, ha⟩ := possible_of_exec he
  exact h m' a hm ha

/-- The operation has failed for a reason that the code does not look at, or its value is as `p`
says. -/
def Got {α : Type} (p : α → Prop) : Except IoError α → Prop
  | .ok a => p a
  | .error e => ∃ text, e = .other text

/-! ## 4. One piece of a file that grows

A piece within the old content is the same in the new one. -/

/-- A piece of what was there before. -/
theorem take_drop_of_prefix {α : Type} {a b : List α} {k len : Nat} (h : a <+: b)
    (hlen : k + len ≤ a.length) : (b.drop k).take len = (a.drop k).take len := by
  obtain ⟨c, rfl⟩ := h
  rw [List.drop_append_of_le_length (by omega),
    List.take_append_of_le_length (by rw [List.length_drop]; omega)]

/-- A piece that was read in two parts. -/
theorem take_drop_append {α : Type} (a : List α) (k l len : Nat) (h : l ≤ len) :
    (a.drop k).take l ++ (a.drop (k + l)).take (len - l) = (a.drop k).take len := by
  rw [← List.drop_drop, ← List.take_add, Nat.add_sub_cancel' h]

/-- However the reads cut it, `read_exact` gets the bytes that were there at an earlier moment. -/
theorem wp_readExact {m₀ : Nat} (hgrow : Grows disk m₀) {reads : Nat} {file : File} {len : Nat}
    (hnow : m₀ ≤ now) (hreads : len ≤ reads)
    (hlen : file.cursor + len ≤ ((disk m₀).content file.node).length) :
    (fileLogic disk).wp t (readExact reads file len)
      (fun r m => now ≤ m ∧ Got (fun got =>
        got.1 = (((disk m₀).content file.node).drop file.cursor).take len ∧
        got.2 = { file with cursor := file.cursor + len }) r) now := by
  induction reads generalizing now file len with
  | zero =>
    obtain rfl := Nat.le_zero.mp hreads
    exact ⟨Nat.le_refl _, by simp, by simp⟩
  | succ reads ih =>
    unfold readExact
    by_cases hzero : len = 0
    · rw [if_pos hzero]
      subst hzero
      exact ⟨Nat.le_refl _, by simp, by simp⟩
    · rw [if_neg hzero]
      refine Context.wp_seq (wp_callFile (fun m a hm ha => And.intro hm ha)) ?_
      rintro (e | ⟨bytes, file'⟩) m ⟨hm, ha⟩
      · cases e with
        | other text => exact ⟨hm, text, rfl⟩
        | _ => cases ha
      · obtain ⟨⟨k, hbytes⟩, rfl⟩ := ha
        -- the file has grown since, but what is read now was there already
        have hread : bytes = (((disk m₀).content file.node).drop file.cursor).take
            (min len (k + 1)) := by
          rw [hbytes]
          exact take_drop_of_prefix (hgrow.isPrefix (Nat.le_refl _) (hnow.trans hm) file.node)
            (by omega)
        have hlength : bytes.length = min len (k + 1) := by
          rw [hread, List.length_take, List.length_drop]
          omega
        cases bytes with
        | nil =>
          simp only [List.length_nil] at hlength
          omega
        | cons b bs =>
          refine Context.wp_seq (ih (hnow.trans hm) (by omega) (by simp only; omega)) ?_
          rintro (e | ⟨rest, file'⟩) m' ⟨hm', hgot⟩
          · exact ⟨hm.trans hm', hgot⟩
          · obtain ⟨hrest, hfile⟩ := hgot
            refine ⟨hm.trans hm', ?_, ?_⟩
            · simp only at hrest ⊢
              rw [hrest, hlength, hread]
              exact take_drop_append _ _ _ _ (Nat.min_le_left _ _)
            · simp only at hfile ⊢
              rw [hfile, hlength]
              congr 1
              omega

/-- The loop reads what it would have read of the file as it was when its length was asked for. -/
theorem wp_tailLoop {m₀ : Nat} (hgrow : Grows disk m₀) {n chunks : Nat} {file : File} {pos : Nat}
    {buf : List UInt8} (hnow : m₀ ≤ now) (hchunks : pos ≤ chunks)
    (hpos : pos ≤ ((disk m₀).content file.node).length) :
    (fileLogic disk).wp t (tailLoop n chunks file pos buf)
      (fun r m => now ≤ m ∧
        Got (· = tailFrom ((disk m₀).content file.node) n pos buf) r) now := by
  -- by induction on the chunks; what is read was there when the length was asked for
  induction chunks generalizing now file pos buf with
  | zero =>
    obtain rfl := Nat.le_zero.mp hchunks
    refine ⟨Nat.le_refl _, ?_⟩
    rw [tailFrom, if_pos rfl]
    rfl
  | succ chunks ih =>
    unfold tailLoop
    rw [tailFrom]
    by_cases hzero : pos = 0
    · rw [if_pos hzero, if_pos hzero]
      exact ⟨Nat.le_refl _, rfl⟩
    · rw [if_neg hzero, if_neg hzero]
      have hchunk : 0 < tailReadChunk := by decide
      refine Context.wp_seq (wp_callFile (fun m a hm ha => And.intro hm ha)) ?_
      rintro (e | file') m ⟨hm, ha⟩
      · cases e with
        | other text => exact ⟨hm, text, rfl⟩
        | _ => cases ha
      · cases ha
        refine Context.wp_seq (wp_readExact hgrow (hnow.trans hm) (Nat.le_refl _)
          (by simp only; omega)) ?_
        rintro (e | ⟨chunk, file'⟩) m' ⟨hm', hgot⟩
        · exact ⟨hm.trans hm', hgot⟩
        · obtain ⟨rfl, rfl⟩ := hgot
          dsimp only
          split
          · exact ⟨hm.trans hm', rfl⟩
          · refine Context.wp_mono (ih ((hnow.trans hm).trans hm') (by omega) (by simp only; omega))
              fun r m'' h => ⟨(hm.trans hm').trans h.1, h.2⟩

/-! ## 5. What a call has seen

The chunks of a backward read come from different moments, and together they are the end of the file
as it was at the first of these. -/

/-- From `start` to `finish` there was a moment when the path named no file. -/
def Missing (disk : Nat → Disk) (path : Str) (start finish : Nat) : Prop :=
  ∃ m, start ≤ m ∧ m ≤ finish ∧ (disk m).links path = none

/-- From `start` to `finish` there was a moment when the path named a file, and at one from then on
this file had a content as `p` says. -/
def Seen (disk : Nat → Disk) (path : Str) (start finish : Nat) (p : List UInt8 → Prop) : Prop :=
  ∃ m m' node, start ≤ m ∧ m ≤ m' ∧ m' ≤ finish ∧ (disk m).links path = some node ∧
    p ((disk m').content node)

/-- How `read_last_lines` may end. -/
def LinesSeen (disk : Nat → Disk) (path : Str) (n start finish : Nat) :
    Except IoError (List Str) → Prop
  | .ok found => n = 0 ∧ found = [] ∨
      Seen disk path start finish fun content => found = (lines (fromUtf8Lossy content)).rtake n
  | .error .notFound => Missing disk path start finish
  | .error (.other _) => True
  | .error _ => False

/-- How `read_to_string` may end. -/
def TextSeen (disk : Nat → Disk) (path : Str) (start finish : Nat) :
    Option (Except IoError Str) → Prop
  | some (.ok text) => Seen disk path start finish fun content => fromUtf8 content = some text
  | some (.error .invalidData) => Seen disk path start finish fun content => fromUtf8 content = none
  | some (.error .notFound) => Missing disk path start finish
  | some (.error (.other _)) => True
  | some (.error .unexpectedEof) => False
  | none => True

/-- What `read_last_lines` makes of a whole file. -/
theorem lastLines_tailFrom {content : List UInt8} {n : Nat} (hn : n ≠ 0) :
    lastLines n (tailFrom content n content.length []) =
      (lines (fromUtf8Lossy content)).rtake n := by
  have h := read_last_lines_eq content n
  rw [readLastLines, if_neg hn] at h
  exact Except.ok.inj h

/-- **The tail of a log that grows** is that of one moment. -/
theorem wp_readLastLinesOf (hgrow : Grows disk now) (path : Str) (n : Nat) :
    (fileLogic disk).wp t (readLastLinesOf path n)
      (fun r m => now ≤ m ∧ LinesSeen disk path n now m r) now := by
  unfold readLastLinesOf
  by_cases hn : n = 0
  · rw [if_pos hn]
    exact ⟨Nat.le_refl _, .inl ⟨hn, rfl⟩⟩
  · rw [if_neg hn]
    refine Context.wp_seq (wp_callFile (fun m a hm ha => And.intro hm ha)) ?_
    rintro (e | file) m ⟨hm, ha⟩
    · cases e with
      | notFound => exact ⟨hm, m, hm, Nat.le_refl _, ha⟩
      | other text => exact ⟨hm, trivial⟩
      | _ => cases ha
    · obtain ⟨hlink, -⟩ := ha
      refine Context.wp_seq (wp_callFile (fun m a hm ha => And.intro hm ha)) ?_
      rintro (e | len) m' ⟨hm', ha⟩
      · cases e with
        | other text => exact ⟨hm.trans hm', trivial⟩
        | _ => cases ha
      · cases ha
        refine Context.wp_seq (wp_tailLoop (hgrow.mono (hm.trans hm')) (Nat.le_refl _)
          (Nat.le_refl _) (Nat.le_refl _)) ?_
        rintro (e | buf) m'' ⟨hm'', hgot⟩
        · obtain ⟨text, rfl⟩ := hgot
          exact ⟨(hm.trans hm').trans hm'', trivial⟩
        · cases hgot
          refine ⟨(hm.trans hm').trans hm'', .inr ⟨m, m', file.node, hm, hm', hm'', hlink, ?_⟩⟩
          exact lastLines_tailFrom hn

/-- What was read up to the end of the file is all that it has then. -/
theorem wp_readToEnd {start : Nat} (hgrow : Grows disk start) {rooms : List Nat} {file : File}
    {got : List UInt8} (hnow : start ≤ now) (hgot : got <+: (disk now).content file.node)
    (hcursor : file.cursor = got.length) :
    (fileLogic disk).wp t (readToEnd rooms file got)
      (fun r m => now ≤ m ∧ ∀ r', r = some r' → Got (fun bytes =>
        ∃ m', now ≤ m' ∧ m' ≤ m ∧ bytes = (disk m').content file.node) r') now := by
  induction rooms generalizing now file got with
  | nil => exact ⟨Nat.le_refl _, fun r' hr => by cases hr⟩
  | cons room rooms ih =>
    unfold readToEnd
    refine Context.wp_seq (wp_callFile (fun m a hm ha => And.intro hm ha)) ?_
    rintro (e | ⟨bytes, file'⟩) m ⟨hm, ha⟩
    · cases e with
      | other text => exact ⟨hm, fun r' hr => by cases hr; exact ⟨text, rfl⟩⟩
      | _ => cases ha
    · obtain ⟨⟨k, hbytes⟩, rfl⟩ := ha
      have hprefix := hgot.trans (hgrow.isPrefix hnow hm file.node)
      obtain ⟨rest, hrest⟩ := hprefix
      rw [← hrest, hcursor, List.drop_left] at hbytes
      cases bytes with
      | nil =>
        -- the read at the end of the file
        have hnil : rest = [] := by
          have hlength := congrArg List.length hbytes
          rw [List.length_take, List.length_nil] at hlength
          exact List.length_eq_zero_iff.mp (by omega)
        refine ⟨hm, fun r' hr => ?_⟩
        cases hr
        exact ⟨m, hm, Nat.le_refl _, by rw [← hrest, hnil, List.append_nil]⟩
      | cons b bs =>
        refine Context.wp_mono (ih (hnow.trans hm) ?_ ?_) ?_
        · rw [← hrest]
          exact List.prefix_append_right_inj _ |>.mpr (hbytes ▸ List.take_prefix _ _)
        · simp only [List.length_append, hcursor]
        · intro r m' ⟨hm', h⟩
          refine ⟨hm.trans hm', fun r' hr => ?_⟩
          have hr' := h r' hr
          cases r' with
          | error e => exact hr'
          | ok bytes =>
            obtain ⟨m'', hle, hle', heq⟩ := hr'
            exact ⟨m'', hm.trans hle, hle', heq⟩

/-- **A whole log that grows** is that of one moment. -/
theorem wp_readToString (hgrow : Grows disk now) (path : Str) (rooms : List Nat) :
    (fileLogic disk).wp t (readToString path rooms)
      (fun r m => now ≤ m ∧ TextSeen disk path now m r) now := by
  unfold readToString
  refine Context.wp_seq (wp_callFile (fun m a hm ha => And.intro hm ha)) ?_
  rintro (e | file) m ⟨hm, ha⟩
  · cases e with
    | notFound => exact ⟨hm, m, hm, Nat.le_refl _, ha⟩
    | other text => exact ⟨hm, trivial⟩
    | _ => cases ha
  · obtain ⟨hlink, hcursor⟩ := ha
    refine Context.wp_seq (wp_readToEnd hgrow hm List.nil_prefix hcursor) ?_
    rintro (_ | e | bytes) m' ⟨hm', h⟩
    · exact ⟨hm.trans hm', trivial⟩
    · obtain ⟨text, rfl⟩ := h _ rfl
      exact ⟨hm.trans hm', trivial⟩
    · obtain ⟨m'', hle, hle', rfl⟩ := h _ rfl
      dsimp only
      split
      · rename_i hdecode
        exact ⟨hm.trans hm', m, m'', file.node, hm, hle, hle', hlink, hdecode⟩
      · rename_i text hdecode
        exact ⟨hm.trans hm', m, m'', file.node, hm, hle, hle', hlink, hdecode⟩

end Wp

/-! ## 6. Calls one after another

The rules of the calls, for clients that make one after another. -/

section Calls

variable (disk : Nat → Disk) (env : HostEnv)

/-- The answer to a call that runs from `start` to `finish`. -/
def LogCall.Answers (start finish : Nat) : LogCall → LogAnswer → Prop
  | .logLines snap stream n, .lines r =>
    match snap.logPath env stream with
    | none => r = .error .pathNotResolved
    | some path => match r with
      | .ok found => (n = 0 ∨ Missing disk path start finish) ∧ found = [] ∨
          Seen disk path start finish fun content =>
            found = (lines (fromUtf8Lossy content)).rtake n
      | .error (.io (.other _)) => True
      | .error _ => False
  | .readLogToEnd snap stream _, .text r =>
    match snap.logPath env stream with
    | none => r = some (.error .pathNotResolved)
    | some path => match r with
      | some (.ok text) => Missing disk path start finish ∧ text = [] ∨
          Seen disk path start finish fun content => fromUtf8 content = some text
      | some (.error (.io .invalidData)) =>
          Seen disk path start finish fun content => fromUtf8 content = none
      | some (.error (.io (.other _))) | none => True
      | some (.error _) => False
  | _, _ => False

/-- The answers to calls that are made one after another, from `start` to `finish`. -/
def ReadsAnswered : (start finish : Nat) → List LogCall → List LogAnswer → Prop
  | start, finish, [], as => start ≤ finish ∧ as = []
  | start, finish, call :: calls, as => ∃ m a rest, as = a :: rest ∧ start ≤ m ∧
      call.Answers disk env start m a ∧ ReadsAnswered m finish calls rest

variable {disk env} {t now : Nat}

/-- What was answered until now was answered until later. -/
theorem ReadsAnswered.mono {calls : List LogCall} {as : List LogAnswer} {start finish later : Nat}
    (h : ReadsAnswered disk env start finish calls as) (hle : finish ≤ later) :
    ReadsAnswered disk env start later calls as := by
  induction calls generalizing start as with
  | nil => exact ⟨h.1.trans hle, h.2⟩
  | cons call calls ih =>
    obtain ⟨m, a, rest, has, hm, hcall, hrest⟩ := h
    exact ⟨m, a, rest, has, hm, hcall, ih hrest⟩

/-- **The rule of a call**: there is one moment of which its answer tells. -/
theorem wp_logCall (hgrow : Grows disk now) (call : LogCall) :
    (fileLogic disk).wp t (call.program env)
      (fun a m => now ≤ m ∧ call.Answers disk env now m a) now := by
  cases call with
  | logLines snap stream n =>
    simp only [LogCall.program, logLines]
    cases hpath : snap.logPath env stream with
    | none => exact ⟨Nat.le_refl _, by simp only [LogCall.Answers, hpath]⟩
    | some path =>
      refine Context.wp_bind (Context.wp_seq (wp_readLastLinesOf hgrow path n) ?_)
      rintro ((_ | _ | _ | text) | found) m ⟨hm, h⟩
      · exact ⟨hm, by simp only [LogCall.Answers, hpath]; exact .inl ⟨.inr h, trivial⟩⟩
      · cases h
      · cases h
      · exact ⟨hm, by simp only [LogCall.Answers, hpath]⟩
      · refine ⟨hm, ?_⟩
        simp only [LogCall.Answers, hpath]
        rcases h with ⟨hn, hfound⟩ | hseen
        · exact .inl ⟨.inl hn, hfound⟩
        · exact .inr hseen
  | readLogToEnd snap stream rooms =>
    simp only [LogCall.program, readLogToEnd]
    cases hpath : snap.logPath env stream with
    | none => exact ⟨Nat.le_refl _, by simp only [LogCall.Answers, hpath]⟩
    | some path =>
      refine Context.wp_bind (Context.wp_seq (wp_readToString hgrow path rooms) ?_)
      rintro (_ | (_ | _ | _ | text) | text) m ⟨hm, h⟩
      · exact ⟨hm, by simp only [LogCall.Answers, hpath]⟩
      · exact ⟨hm, by simp only [LogCall.Answers, hpath]; exact .inl ⟨h, trivial⟩⟩
      · exact ⟨hm, by simp only [LogCall.Answers, hpath]; exact h⟩
      · cases h
      · exact ⟨hm, by simp only [LogCall.Answers, hpath]⟩
      · exact ⟨hm, by simp only [LogCall.Answers, hpath]; exact .inr h⟩

/-- **The rule of a client**, by induction on its calls. -/
theorem wp_logReader (hgrow : Grows disk now) (calls : List LogCall) :
    (fileLogic disk).wp t (logReader env calls)
      (fun as m => ReadsAnswered disk env now m calls as) now := by
  induction calls generalizing now with
  | nil => exact ⟨Nat.le_refl _, rfl⟩
  | cons call calls ih =>
    refine Context.wp_seq (wp_logCall hgrow call) fun a m ⟨hm, ha⟩ => ?_
    refine Context.wp_seq (ih (hgrow.mono hm)) fun as m' has => ?_
    exact ⟨m, a, as, rfl, hm, ha, has⟩

/-- Every reader starts at an await. -/
theorem settled_file {c : Config (fileMachine disk) (List LogAnswer)} : c.Settled := by
  intro t p _
  cases p with
  | ret a => trivial
  | ask o k => rfl

/-- **Reads of growing logs are atomic.**  In every run of any number of readers, whatever happens
to the directory, each call answers as if it had read the whole of one file at one moment, and the
moments of one reader's calls follow each other as the calls do. -/
theorem logs_read_at_one_moment {readers : Nat} {calls : Nat → List LogCall}
    (hgrow : Grows disk now) {ms : List (Move (fileMachine disk))}
    {c : Config (fileMachine disk) (List LogAnswer)}
    (hr : (logReaders env disk readers calls now).run ms = some c) (ht : t < readers)
    {as : List LogAnswer} (hres : c.result t = some as) :
    ReadsAnswered disk env now c.world (calls t) as := by
  have hsafe : Config.Safe (fileLogic disk)
      (fun u as m => u < readers → ReadsAnswered disk env now m (calls u) as)
      (logReaders env disk readers calls now) := by
    refine ⟨trivial, settled_file, fun u p hp => ?_⟩
    simp only [logReaders] at hp
    split at hp
    · cases hp
      exact Context.wp_mono (wp_logReader hgrow (calls u)) fun _ _ h _ => h
    · cases hp
  exact (Config.run_sound (fun _ _ _ _ h hle hu => (h hu).mono hle) hsafe hr).post hres ht

/-- A log that has grown from two lines to three when it is read to its end. -/
def growingLog (now : Nat) : Disk :=
  ⟨fun path => if path = "slurm-8.out" then some 0 else none,
    fun _ => if now < 2 then [0x61, 0x0A, 0x62, 0x0A] else [0x61, 0x0A, 0x62, 0x0A, 0x63, 0x0A]⟩

/-- A log that grows line by line. -/
theorem growingLog_grows : Grows growingLog 0 := by
  intro node m _
  simp only [growingLog]
  by_cases h : m + 1 < 2
  · rw [if_pos h, if_pos (by omega)]
  · rw [if_neg h]
    split
    · exact ⟨[0x63, 0x0A], rfl⟩
    · exact List.prefix_refl _

/-- The job whose log this is. -/
def loggedJob : SbatchJobSnapshot :=
  { SbatchJobSnapshot.submitted 0 8 none with log := ⟨some "slurm-%j.out", none⟩ }

/-- Task `t` makes its file operation. -/
def readMove (t : Nat) (i : FileInput) : Move (fileMachine growingLog) := .pass t i

/-- One task reads the last line; the other one has no path for stderr, and reads all of stdout. -/
def growingLogReaders : Config (fileMachine growingLog) (List LogAnswer) :=
  logReaders ⟨"u", "h"⟩ growingLog 2 (fun t =>
    if t = 0 then [.logLines loggedJob .stdout 1]
    else [.logLines loggedJob .stderr 1, .readLogToEnd loggedJob .stdout [9, 9, 9]]) 0

/-- The log grows after its length was asked for, and is read in two parts. -/
def growingLogRun : List (Move (fileMachine growingLog)) :=
  [readMove 0 .done, .tick (), readMove 0 .done, readMove 1 .done, .tick (), readMove 0 .done,
    readMove 0 (.gets 0), readMove 1 (.gets 2), readMove 0 (.gets 7), readMove 1 (.gets 9),
    readMove 1 (.gets 0)]

/-- One reader takes the last line, and another one reads all after more has come. -/
theorem logs_read_at_one_moment_grown : ∃ c, growingLogReaders.run growingLogRun = some c ∧
    c.result 0 = some [.lines (.ok ["b"])] ∧
    c.result 1 = some [.lines (.error .pathNotResolved), .text (some (.ok "a\nb\nc\n"))] ∧
    ReadsAnswered growingLog ⟨"u", "h"⟩ 0 c.world [.logLines loggedJob .stdout 1]
      [.lines (.ok ["b"])] := by
  have hreached : ∃ c, growingLogReaders.run growingLogRun = some c ∧
      (c.result 0 = some [.lines (.ok ["b"])] ∧
        c.result 1 = some [.lines (.error .pathNotResolved), .text (some (.ok "a\nb\nc\n"))]) :=
    Config.exists_run (by decide +kernel)
  obtain ⟨c, hr, h0, h1⟩ := hreached
  exact ⟨c, hr, h0, h1, logs_read_at_one_moment growingLog_grows hr (by decide) h0⟩

end Calls

/-! ## 7. How much of the log is read

The loop stops when it has seen enough line ends, so what it holds is bounded by the lines that it
was asked for and one chunk. -/

/-- The loop stops with the chunk that brings enough newlines. -/
theorem tailFrom_length_lt {content : List UInt8} {n k pos : Nat} (hpos : pos ≤ content.length)
    (henough : n < newlines (content.rtake k)) (hfew : (content.drop pos).length < k) :
    (tailFrom content n pos (content.drop pos)).length < k + tailReadChunk := by
  induction pos using Nat.strong_induction_on with
  | _ pos ih =>
    rw [tailFrom]
    by_cases hzero : pos = 0
    · rw [if_pos hzero]
      omega
    · rw [if_neg hzero]
      have hchunk : 0 < tailReadChunk := by decide
      have hread := take_drop_chunk content tailReadChunk pos
      dsimp only
      rw [hread]
      split
      · rw [List.length_drop] at hfew ⊢
        omega
      · rename_i hstill
        refine ih _ (by omega) (by omega) (Nat.lt_of_not_le fun hle => hstill ?_)
        refine henough.trans_le (List.Sublist.count_le _ (List.IsSuffix.sublist ?_))
        rw [List.rtake]
        exact List.drop_suffix_drop_left _ (by rw [List.length_drop] at hle; omega)

/-- Where no line is as long as `B` bytes, so many bytes have so many newlines. -/
theorem le_newlines {B : Nat} :
    ∀ {j : Nat} {s : List UInt8}, (∀ s', s' <:+: s → 0x0A ∉ s' → s'.length < B) →
      j * B ≤ s.length → j ≤ newlines s
  | 0, _, _, _ => Nat.zero_le _
  | j + 1, s, hline, hlen => by
    have hsplit : s = s.take B ++ s.drop B := (List.take_append_drop B s).symm
    rw [Nat.succ_mul] at hlen
    have hmem : (0x0A : UInt8) ∈ s.take B := by
      by_contra hnot
      have := hline _ (List.take_prefix B s).isInfix hnot
      rw [List.length_take] at this
      omega
    have hrest : j ≤ newlines (s.drop B) :=
      le_newlines (fun s' hs' => hline s' (hs'.trans (List.drop_suffix B s).isInfix))
        (by rw [List.length_drop]; omega)
    have hone : 0 < (s.take B).count 0x0A := List.count_pos_iff.mpr hmem
    rw [newlines] at hrest ⊢
    conv_rhs => rw [hsplit, List.count_append]
    omega

/-- **The buffer is bounded by the lines, not by the file.** -/
theorem tail_buffer_bounded {content : List UInt8} {n B : Nat}
    (hline : ∀ s, s <:+: content → 0x0A ∉ s → s.length < B) :
    tailFrom content n content.length [] <:+ content ∧
      (tailFrom content n content.length []).length < (n + 1) * B + tailReadChunk := by
  obtain ⟨before, hsplit, -⟩ := tailFrom_suffix content n content.length (Nat.le_refl _)
  rw [List.drop_length] at hsplit
  have hsuffix : tailFrom content n content.length [] <:+ content := ⟨before, hsplit.symm⟩
  refine ⟨hsuffix, ?_⟩
  have hchunk : 0 < tailReadChunk := by decide
  by_cases hshort : content.length < (n + 1) * B
  · have := hsuffix.length_le
    omega
  · have hB : 0 < B := hline [] List.nil_infix (by simp)
    have htail : (content.rtake ((n + 1) * B)).length = (n + 1) * B := by
      rw [List.rtake, List.length_drop]
      omega
    have henough : n < newlines (content.rtake ((n + 1) * B)) :=
      le_newlines (j := n + 1) (B := B)
        (fun s hs => hline s (hs.trans (List.drop_suffix _ _).isInfix)) (by rw [htail])
    have hshorter : (content.drop content.length).length < (n + 1) * B := by
      rw [List.drop_length]
      exact Nat.mul_pos (Nat.succ_pos n) hB
    have hlt := tailFrom_length_lt (Nat.le_refl content.length) henough hshorter
    rwa [List.drop_length] at hlt

/-- Of a log of ten thousand empty lines, little more than one chunk is read. -/
theorem tail_buffer_bounded_blank :
    (∀ s, s <:+: List.replicate 10000 (0x0A : UInt8) → 0x0A ∉ s → s.length < 1) ∧
    (tailFrom (List.replicate 10000 0x0A) 1 (List.replicate 10000 (0x0A : UInt8)).length [] <:+
        List.replicate 10000 0x0A ∧
      (tailFrom (List.replicate 10000 0x0A) 1 (List.replicate 10000 (0x0A : UInt8)).length
        []).length < (1 + 1) * 1 + tailReadChunk) := by
  have hline : ∀ s, s <:+: List.replicate 10000 (0x0A : UInt8) → 0x0A ∉ s → s.length < 1 := by
    intro s hs hnewline
    have hnil : s = [] := by
      refine List.eq_nil_iff_forall_not_mem.mpr fun b hb => ?_
      obtain rfl : b = 0x0A := List.eq_of_mem_replicate (hs.sublist.subset hb)
      exact hnewline hb
    rw [hnil]
    exact Nat.one_pos
  exact ⟨hline, tail_buffer_bounded hline⟩

end Sbatch

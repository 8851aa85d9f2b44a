/-
# The directory of a store, call by call

`write_atomic_json` makes the directory, writes the snapshot piece by piece to a temporary file in
it, and renames this file to `{uuid}.json`.  `list` opens the directory and reads one entry after
another.  Each of these calls is an await or runs on a thread of its own, so that other threads and
processes work on the same directory between any two of them; every one can fail, and a process can
die at any of them.
-/
import SlurmRunner.Interact.Machine
import SlurmRunner.Interact.Scan
import SlurmRunner.StateStore.FileSystem

namespace StateStore

open Text Serde Interact

/-! ## 1. Calls of the file system

Each of them is a step of its own, in which other processes see the directory as it is.  To read a
directory is not one step: it is opened, and then each entry takes a call, between which others go
on. -/

/-- What fails under a store, with the text of the error. -/
inductive FsError where
  | store (e : StoreError)
  | mkdir (e : Str)
  | tempfile (e : Str)
  | write (e : Str)
  | persist (file e : Str)
  | read (file e : Str)
  | readDir (e : Str)
  | nextEntry (e : Str)
  | delete (file e : Str)

/-- The calls on one directory, whose files are sequences of `B`. -/
inductive DirOp (B : Type) where
  | createDirAll
  /-- `NamedTempFile::new_in`. -/
  | newTemp
  | append (tmp : Str) (piece : List B)
  /-- `NamedTempFile::persist`: rename. -/
  | persist (tmp name : Str)
  /-- The temporary file is dropped. -/
  | unlink (tmp : Str)
  | read (name : Str)
  | readDir
  | nextEntry
  | removeFile (name : Str)

/-- In an answer, `none` stands for `NotFound`; in that of `nextEntry` it is the end. -/
def DirOp.Ans {B : Type} : DirOp B → Type
  | .createDirAll | .append _ _ | .persist _ _ | .unlink _ => Except Str Unit
  | .newTemp => Except Str Str
  | .read _ => Except Str (Option (List B))
  | .nextEntry => Except Str (Option Str)
  | .readDir | .removeFile _ => Except Str (Option Unit)

def dirSig (B : Type) : Sig := ⟨DirOp B, DirOp.Ans⟩

/-- What decides the outcome of a call. -/
inductive DirIn where
  | go
  /-- It fails; of a write the first `kept` bytes get through. -/
  | fails (kept : Nat) (e : Str)
  /-- The random part of a new name. -/
  | named (rand : Str)
  /-- The entry that is told next. -/
  | entry (name : Str)

namespace Root

variable {Bytes B : Type}

/-- A new file without content. -/
def create (root : Root (List B)) (name : Str) : Root (List B) := some ((name, []) :: root.files)

/-- More content for a file. -/
def append (root : Root (List B)) (name : Str) (piece : List B) : Root (List B) :=
  root.map fun fs => fs.map fun e => if e.1 = name then (e.1, e.2 ++ piece) else e

end Root

/-- The name of a temporary file. -/
def tempName (rand : Str) : Str := ".tmp" ++ rand

variable {B : Type}

/-- What a call does to the files. -/
def fileExec : (o : DirOp B) → DirIn → Root (List B) → Option (o.Ans × Root (List B))
  | .createDirAll, .go, root => some (.ok (), root.make)
  | .createDirAll, .fails _ e, root => some (.error e, root)
  | .newTemp, .named rand, root =>
    -- the name is a new one
    if root.isSome ∧ (root.read (tempName rand)).isNone ∧ '.' ∉ rand then
      some (.ok (tempName rand), root.create (tempName rand))
    else none
  | .newTemp, .fails _ e, root => some (.error e, root)
  | .append tmp piece, .go, root => some (.ok (), root.append tmp piece)
  | .append tmp piece, .fails kept e, root => some (.error e, root.append tmp (piece.take kept))
  | .persist tmp name, .go, root =>
    (root.read tmp).map fun bytes => (.ok (), (root.removeFile tmp).persist name bytes)
  | .persist _ _, .fails _ e, root => some (.error e, root)
  | .unlink tmp, .go, root => some (.ok (), root.removeFile tmp)
  | .unlink _, .fails _ e, root => some (.error e, root)
  | .read name, .go, root => some (.ok (root.read name), root)
  | .read _, .fails _ e, root => some (.error e, root)
  | .removeFile name, .go, root =>
      some (.ok ((root.read name).map fun _ => ()), root.removeFile name)
  | .removeFile _, .fails _ e, root => some (.error e, root)
  | _, _, _ => none

/-- The entries that a call has added, replaced or removed. -/
def DirOp.changes : (o : DirOp B) → o.Ans → List Str
  | .newTemp, (r : Except Str Str) =>
    match r with
    | .ok tmp => [tmp]
    | .error _ => []
  | .persist tmp name, (r : Except Str Unit) =>
    match r with
    | .ok () => [tmp, name]
    | .error _ => []
  | .unlink tmp, (r : Except Str Unit) =>
    match r with
    | .ok () => [tmp]
    | .error _ => []
  | .removeFile name, (r : Except Str (Option Unit)) =>
    match r with
    | .ok (some ()) => [name]
    | _ => []
  | _, _ => []

/-- A directory, and the streams of its entries that each task has opened. -/
abbrev Dir (B : Type) : Type := Scanned (Root (List B)) Str

def dirExec (t : Nat) : (o : DirOp B) → DirIn → Dir B → Option (o.Ans × Dir B)
  -- a directory that is missing has no entries
  | .readDir, .go, d => some (.ok (d.here.map fun _ => ()), d.opens t (d.here.files.map Prod.fst))
  | .readDir, .fails _ e, d => some (.error e, d)
  | .nextEntry, .entry name, d => (d.tells t name).map fun d' => (.ok (some name), d')
  | .nextEntry, .go, d => if d.Over t then some (.ok none, d) else none
  | .nextEntry, .fails _ e, d => some (.error e, d)
  | o, i, d => (fileExec o i d.here).map fun r => (r.1, d.change r.2 (o.changes r.1))

/-- The directory, with any number of threads and processes at work on it.  One that is dropped has
died: it does nothing any more. -/
def dirMachine (B : Type) : Machine (dirSig B) where
  World := Dir B
  In := DirIn
  go := .go
  Env := Empty
  await _ := true
  exec := dirExec
  tick e := e.elim
  drop _ d := d

/-! ## 2. The code of the store

`write_atomic_json` writes a temporary file in pieces, and then puts it in the place of the old one;
`list` reads entry by entry, and the file of each before the next entry. -/

/-- The name of a snapshot file. -/
def IsJson (name : Str) : Prop := extension name = some ("json" : Str)

instance (name : Str) : Decidable (IsJson name) := inferInstanceAs (Decidable (_ = _))

/-- The JSON library writes a text in pieces. -/
structure JsonWriter (B : Type) extends JsonText (List B) where
  pieces : Json → List (List B)
  flatten_pieces : ∀ v, (pieces v).flatten = print v

section Programs

def callDir (o : DirOp B) : Prog (dirSig B) o.Ans := @Prog.op (dirSig B) o

/-- `to_writer_pretty` to the temporary file. -/
def writeAll (tmp : Str) : List (List B) → Prog (dirSig B) (Except Str Unit)
  | [] => return .ok ()
  | piece :: pieces => do
    let (r : Except Str Unit) ← callDir (.append tmp piece)
    match r with
    | .error e => return .error e
    | .ok () => writeAll tmp pieces

variable {S : Type} (J : JobSnapshot S) (U : UuidFormat) (txt : JsonWriter B)

/-- `write_atomic_json`.  A temporary file that is not persisted is removed when it is dropped. -/
def writeAtomicJson (snap : S) : Prog (dirSig B) (Except FsError Unit) := do
  let path := pathFor U (J.uuid snap)
  let (r : Except Str Unit) ← callDir .createDirAll
  match r with
  | .error e => return .error (.mkdir e)
  | .ok () =>
    match J.toValue snap with
    | .obj members =>
      let (r : Except Str Str) ← callDir .newTemp
      match r with
      | .error e => return .error (.tempfile e)
      | .ok tmp =>
        match ← writeAll tmp (txt.pieces (envelope J members)) with
        | .error e =>
          let _ ← callDir (.unlink tmp)
          return .error (.write e)
        | .ok () =>
          let (r : Except Str Unit) ← callDir (.persist tmp path)
          match r with
          | .error e =>
            let _ ← callDir (.unlink tmp)
            return .error (.persist path e)
          | .ok () => return .ok ()
    | _ => return .error (.store .notAnObject)

/-- What a read of the file `name` makes of its answer. -/
def decodeRead (name : Str) : Except Str (Option (List B)) → Except FsError (Option S)
  | .error e => .error (.read name e)
  | .ok none => .ok none
  | .ok (some bytes) => (decodeWithKindCheck J txt.toJsonText name bytes).mapError .store

/-- `load`. -/
def loadFile (u : Nat) : Prog (dirSig B) (Except FsError (Option S)) := do
  let r ← callDir (.read (pathFor U u))
  return decodeRead J txt (pathFor U u) r

/-- The loop of `list`, over at most `rounds` entries.  What cannot be read or decoded is
skipped. -/
def readEntries : Nat → Prog (dirSig B) (Option (Except FsError (List S)))
  | 0 => return none
  | rounds + 1 => do
    let (r : Except Str (Option Str)) ← callDir .nextEntry
    match r with
    | .error e => return some (.error (.nextEntry e))
    | .ok none => return some (.ok [])
    | .ok (some name) =>
      if IsJson name then
        let (r : Except Str (Option (List B))) ← callDir (.read name)
        match decodeRead J txt name r with
        | .ok (some snap) =>
          let rest ← readEntries rounds
          return rest.map fun snaps => snaps.map (snap :: ·)
        | _ => readEntries rounds
      else readEntries rounds

/-- `list`; none if it has not come to the end after `rounds` entries. -/
def listDir (rounds : Nat) : Prog (dirSig B) (Option (Except FsError (List S))) := do
  let (r : Except Str (Option Unit)) ← callDir .readDir
  match r with
  | .error e => return some (.error (.readDir e))
  | .ok none => return some (.ok [])
  | .ok (some ()) => readEntries J txt rounds

/-- `delete`. -/
def deleteFile (u : Nat) : Prog (dirSig B) (Except FsError Unit) := do
  let (r : Except Str (Option Unit)) ← callDir (.removeFile (pathFor U u))
  match r with
  | .error e => return .error (.delete (pathFor U u) e)
  | .ok _ => return .ok ()

end Programs

/-- The results of the calls of a store that may fail. -/
inductive FsReply (S : Type) where
  | done (r : Except FsError Unit)
  | loaded (r : Except FsError (Option S))
  | listed (r : Except FsError (List S))
  | found (r : Except FsError (Option S))
  /-- The scan has come across as many entries as its loop is given, and not to the end. -/
  | scanning

/-- The result of a call that scans the store. -/
def FsReply.ofScan {S : Type} (reply : Except FsError (List S) → FsReply S) :
    Option (Except FsError (List S)) → FsReply S
  | none => .scanning
  | some r => reply r

/-- A call of `FileSystemStateStore`. -/
def fsCall {S : Type} (J : JobSnapshot S) (U : UuidFormat) (txt : JsonWriter B) (rounds : Nat) :
    Call S → Prog (dirSig B) (FsReply S)
  | .save snap => .done <$> writeAtomicJson J U txt snap
  | .load u => .loaded <$> loadFile J U txt u
  | .list => .ofScan .listed <$> listDir J txt rounds
  | .delete u => .done <$> deleteFile U u
  | .findByJobid j => .ofScan (fun r => .found (r.map (firstByJobid J j))) <$> listDir J txt rounds
  | .findAllByJobid j =>
    .ofScan (fun r => .listed (r.map (allByJobid J j))) <$> listDir J txt rounds

/-- A client makes its calls one after another. -/
def clientOf {E : Sig} {α β : Type} (program : α → Prog E β) : List α → Prog E (List β)
  | [] => return []
  | call :: calls => do
    let r ← program call
    let rs ← clientOf program calls
    return r :: rs

/-- `calls t` are the calls of client `t`, of `clients` in all. -/
def startClients {E : Sig} {α β : Type} (M : Machine E) (program : α → Prog E β) (clients : Nat)
    (calls : Nat → List α) (world : M.World) : Config M (List β) where
  world := world
  tasks t := if t < clients then some (clientOf program (calls t)) else none

/-! ## 3. The files of a directory

Files in the making have names that are no snapshot's, so what is visible changes only when one is
put in its place or removed. -/

/-- A temporary file is no snapshot. -/
theorem not_isJson_tempName {rand : Str} (h : '.' ∉ rand) : ¬ IsJson (tempName rand) := by
  have hrev : (tempName rand).reverse = (rand.reverse ++ "pmt".toList) ++ '.' :: [] := by
    simp [tempName]
  have hdot : '.' ∉ rand.reverse ++ "pmt".toList := by
    simpa using h
  rw [IsJson, extension, hrev, splitOnce_append hdot]
  simp

/-- The file of a uuid is one. -/
theorem isJson_pathFor (U : UuidFormat) (u : Nat) : IsJson (pathFor U u) := extension_pathFor U u

namespace Root

section

variable {Bytes : Type} {root : Root Bytes} {name name' : Str}

/-- The files that a scan does not pass over. -/
def visible (root : Root Bytes) : List (Str × Bytes) := root.files.filter fun e => IsJson e.1

/-- A snapshot file is looked up among the visible ones. -/
theorem read_eq_visible (root : Root Bytes) (h : IsJson name) :
    root.read name = (root.visible.find? fun e => e.1 = name).map Prod.snd := by
  rw [read, visible, List.find?_filter]
  congr 2
  funext e
  by_cases he : e.1 = name <;> simp [he, h]

/-- The other files are left when one is removed. -/
theorem read_removeFile_of_ne (root : Root Bytes) (h : name ≠ name') :
    (root.removeFile name').read name = root.read name := by
  rw [read, read, files_removeFile, List.find?_filter]
  congr 2
  funext e
  by_cases he : e.1 = name <;> simp [he, h]

/-- And when one is put in its place. -/
theorem read_persist_of_ne (root : Root Bytes) (bytes : Bytes) (h : name ≠ name') :
    (root.persist name' bytes).read name = root.read name := by
  rw [read, files_persist, List.find?_cons_of_neg (by simpa using Ne.symm h), List.find?_filter,
    read]
  congr 2
  funext e
  by_cases he : e.1 = name <;> simp [he, h]

/-- What is removed is no longer visible. -/
theorem visible_removeFile (root : Root Bytes) (name : Str) :
    (root.removeFile name).visible = root.visible.filter fun e => e.1 ≠ name := by
  rw [visible, visible, files_removeFile, List.filter_filter, List.filter_filter]
  refine List.filter_congr fun e _ => ?_
  rw [Bool.and_comm]

/-- A file that a scan passes over can be removed unseen. -/
theorem visible_removeFile_of_hidden (root : Root Bytes) (h : ¬ IsJson name) :
    (root.removeFile name).visible = root.visible := by
  rw [visible_removeFile]
  refine List.filter_eq_self.mpr fun e he => ?_
  have hjson : IsJson e.1 := by simpa using (List.mem_filter.mp he).2
  simpa using fun heq : e.1 = name => h (heq ▸ hjson)

/-- What is put in its place is visible, and replaces what was there. -/
theorem visible_persist (root : Root Bytes) (bytes : Bytes) (h : IsJson name) :
    (root.persist name bytes).visible
      = (name, bytes) :: root.visible.filter fun e => e.1 ≠ name := by
  rw [visible, files_persist, List.filter_cons_of_pos (by simpa using h)]
  congr 1
  rw [visible, List.filter_filter, List.filter_filter]
  refine List.filter_congr fun e _ => ?_
  rw [Bool.and_comm]

end

section

variable {root : Root (List B)} {name name' : Str}

/-- A new file is empty. -/
theorem read_create_self (root : Root (List B)) (name : Str) :
    (root.create name).read name = some [] := by
  simp [read, create, files]

/-- The other files are what they were. -/
theorem read_create_of_ne (root : Root (List B)) (h : name ≠ name') :
    (root.create name').read name = root.read name := by
  simp [read, create, files, Ne.symm h]

/-- A temporary file is not visible. -/
theorem visible_create (root : Root (List B)) (h : ¬ IsJson name) :
    (root.create name).visible = root.visible := by
  rw [visible, create, files, Option.getD_some, List.filter_cons_of_neg (by simpa using h), visible]

/-- Writing to one file, seen file by file. -/
theorem files_append (root : Root (List B)) (name : Str) (piece : List B) :
    (root.append name piece).files
      = root.files.map fun e => if e.1 = name then (e.1, e.2 ++ piece) else e := by
  cases root <;> rfl

/-- A piece is added at the end of its file. -/
theorem read_append (root : Root (List B)) (name name' : Str) (piece : List B) :
    (root.append name' piece).read name
      = (root.read name).map fun bytes => if name = name' then bytes ++ piece else bytes := by
  rw [read, read, files_append, List.find?_map, Option.map_map, Option.map_map]
  have hname : ((fun e : Str × List B => decide (e.1 = name)) ∘
      fun e => if e.1 = name' then (e.1, e.2 ++ piece) else e) = fun e => decide (e.1 = name) := by
    funext e
    simp only [Function.comp_apply]
    split_ifs <;> rfl
  rw [hname]
  cases hfind : root.files.find? (fun e => e.1 = name) with
  | none => rfl
  | some e =>
    have he : e.1 = name := by simpa using List.find?_some hfind
    subst he
    simp only [Option.map_some, Function.comp_apply]
    split_ifs <;> rfl

/-- To write to a temporary file changes nothing that is visible. -/
theorem visible_append (root : Root (List B)) (piece : List B) (h : ¬ IsJson name) :
    (root.append name piece).visible = root.visible := by
  rw [visible, visible, files_append, List.filter_map]
  have hname : ((fun e : Str × List B => decide (IsJson e.1)) ∘
      fun e => if e.1 = name then (e.1, e.2 ++ piece) else e) = fun e => decide (IsJson e.1) := by
    funext e
    simp only [Function.comp_apply]
    split_ifs <;> rfl
  rw [hname]
  refine (List.map_congr_left fun e he => ?_).trans (List.map_id _)
  have hjson : IsJson e.1 := by simpa using (List.mem_filter.mp he).2
  rw [if_neg fun heq : e.1 = name => h (heq ▸ hjson)]
  rfl

end

end Root

end StateStore

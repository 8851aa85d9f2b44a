/-
# A save is atomic

Other threads and processes work on the directory of a store between any two of the steps of a save,
every one of them can fail, and a process can die at any of them.  All the same, the directory
behaves like a store on which `save`, `load` and `delete` are single operations that either take
effect or fail (`saves_atomic`): what counts is the rename.  Neither a reader nor a scan sees a
half-written file, and what a dead process leaves behind is never listed.

The steps of a scan are seen as they are.  So what is listed is not the store of one moment, but
each snapshot in it was stored when it was loaded.  One that stays as it is during the call is told
exactly once, and it is listed unless its file could not be read.
-/
import SlurmRunner.Interact.Simulation
import SlurmRunner.StateStore.AtomicStore
import SlurmRunner.StateStore.Refinement

namespace StateStore

open Text Serde Interact

variable {B : Type}

/-! ## 1. The steps of a save

A save creates a temporary file, writes the document piece by piece and renames it; if it fails, it
removes the file.  Between two of these steps, anything may happen to the other files.  The
temporary file belongs to the task alone: its name has not been in use, and no other task asks for
it. -/

/-- Where a task is in a save: it has a temporary file with this content, or has failed to write or
to rename it and must remove it. -/
inductive SaveStage (B : Type) where
  | idle
  | temp (tmp : Str) (content : List B)
  | failed (tmp : Str) (e : FsError)

namespace SaveStage

def owned : SaveStage B → Option Str
  | .idle => none
  | .temp tmp _ | .failed tmp _ => some tmp

/-- A task touches its own temporary file and the snapshot files. -/
def Allows (s : SaveStage B) : DirOp B → Prop
  | .newTemp => s = .idle
  | .append tmp _ => ∃ content, s = .temp tmp content
  | .persist tmp name => (∃ content, s = .temp tmp content) ∧ IsJson name
  | .unlink tmp => ∃ e, s = .failed tmp e
  | .removeFile name => IsJson name
  | .createDirAll | .read _ | .readDir | .nextEntry => True

def next (s : SaveStage B) : (o : DirOp B) → o.Ans → SaveStage B
  | .newTemp, (r : Except Str Str) =>
    match r with
    | .ok tmp => .temp tmp []
    | .error _ => s
  | .append _ piece, (r : Except Str Unit) =>
    match s, r with
    | .temp tmp content, .ok () => .temp tmp (content ++ piece)
    | .temp tmp _, .error e => .failed tmp (.write e)
    | s, _ => s
  | .persist _ name, (r : Except Str Unit) =>
    match s, r with
    | .temp _ _, .ok () => .idle
    | .temp tmp _, .error e => .failed tmp (.persist name e)
    | s, _ => s
  | .unlink _, _ => .idle
  | .createDirAll, _ | .read _, _ | .readDir, _ | .nextEntry, _ | .removeFile _, _ => s

end SaveStage

variable (B) in
abbrev saveProtocol : Protocol (dirSig B) where
  Stage := SaveStage B
  allows s o := s.Allows o
  next s o a := s.next o a

/-- The directory has the temporary file of the task. -/
def Writing (s : SaveStage B) (root : Root (List B)) : Prop :=
  (∀ tmp, s.owned = some tmp → ¬ IsJson tmp ∧ ∃ bytes, root.read tmp = some bytes) ∧
    ∀ tmp content, s = .temp tmp content → root.read tmp = some content

/-- Two tasks have different temporary files. -/
def SaveStage.Apart (s s' : SaveStage B) : Prop :=
  ∀ tmp, s.owned = some tmp → s'.owned ≠ some tmp

/-- The answers of calls that leave the files as they are. -/
def DirOp.Unchanged (root : Root (List B)) : (o : DirOp B) → o.Ans → Prop
  | .createDirAll, (r : Except Str Unit) | .persist _ _, (r : Except Str Unit)
  | .unlink _, (r : Except Str Unit) => ∃ e, r = .error e
  | .newTemp, (r : Except Str Str) => ∃ e, r = .error e
  | .removeFile _, (r : Except Str (Option Unit)) => ∃ e, r = .error e
  | .read name, (r : Except Str (Option (List B))) =>
    r = .ok (root.read name) ∨ ∃ e, r = .error e
  | .append _ _, _ | .readDir, _ | .nextEntry, _ => False

/-- What a call does to the files. -/
inductive DirEffect (root : Root (List B)) : (o : DirOp B) → o.Ans → Root (List B) → Prop
  | unchanged {o : DirOp B} {a : o.Ans} (h : o.Unchanged root a) : DirEffect root o a root
  | createDirAll : DirEffect root .createDirAll (Except.ok () : Except Str Unit) root.make
  | newTemp {rand : Str} (hdot : '.' ∉ rand) (hfree : root.read (tempName rand) = none) :
      DirEffect root .newTemp (Except.ok (tempName rand) : Except Str Str)
        (root.create (tempName rand))
  | append {tmp : Str} {piece : List B} :
      DirEffect root (.append tmp piece) (Except.ok () : Except Str Unit) (root.append tmp piece)
  | appendFailed {tmp : Str} {piece : List B} (kept : Nat) (e : Str) :
      DirEffect root (.append tmp piece) (Except.error e : Except Str Unit)
        (root.append tmp (piece.take kept))
  | persist {tmp name : Str} {bytes : List B} (h : root.read tmp = some bytes) :
      DirEffect root (.persist tmp name) (Except.ok () : Except Str Unit)
        ((root.removeFile tmp).persist name bytes)
  | unlink {tmp : Str} :
      DirEffect root (.unlink tmp) (Except.ok () : Except Str Unit) (root.removeFile tmp)
  | removeFile {name : Str} :
      DirEffect root (.removeFile name)
        (Except.ok ((root.read name).map fun _ => ()) : Except Str (Option Unit))
        (root.removeFile name)

/-- What a call of task `t` does to the directory and to the streams of its entries. -/
inductive DirStep (t : Nat) (d : Dir B) : (o : DirOp B) → o.Ans → Dir B → Prop
  | files {o : DirOp B} {a : o.Ans} {root : Root (List B)} (h : DirEffect d.here o a root) :
      DirStep t d o a (d.change root (o.changes a))
  | opens : DirStep t d .readDir
      (Except.ok (d.here.map fun _ => ()) : Except Str (Option Unit))
      (d.opens t (d.here.files.map Prod.fst))
  | opensNot (e : Str) : DirStep t d .readDir (Except.error e : Except Str (Option Unit)) d
  | tells {name : Str} {d' : Dir B} (h : d.tells t name = some d') :
      DirStep t d .nextEntry (Except.ok (some name) : Except Str (Option Str)) d'
  | atEnd (h : d.Over t) : DirStep t d .nextEntry (Except.ok none : Except Str (Option Str)) d
  | tellsNot (e : Str) : DirStep t d .nextEntry (Except.error e : Except Str (Option Str)) d

section Steps

variable {s s' : SaveStage B} {root root' : Root (List B)} {d d' : Dir B} {t : Nat} {o : DirOp B}
  {i : DirIn} {a : o.Ans}

/-- Only a `write` that fails may leave something behind. -/
theorem effect_of_fails {kept : Nat} {e : Str}
    (he : fileExec o (.fails kept e) root = some (a, root')) : DirEffect root o a root' := by
  cases o with
  | append tmp piece =>
    cases he
    exact .appendFailed kept e
  | read name =>
    cases he
    exact .unchanged (.inr ⟨e, rfl⟩)
  | createDirAll | newTemp | persist | unlink | removeFile =>
    cases he
    exact .unchanged ⟨_, rfl⟩
  | readDir | nextEntry => cases he

/-- A call that succeeds. -/
theorem effect_of_go (he : fileExec o .go root = some (a, root')) : DirEffect root o a root' := by
  cases o with
  | createDirAll =>
    cases he
    exact .createDirAll
  | append tmp piece =>
    cases he
    exact .append
  | persist tmp name =>
    obtain ⟨bytes, hread, heq⟩ := Option.map_eq_some_iff.mp he
    cases heq
    exact .persist hread
  | unlink tmp =>
    cases he
    exact .unlink
  | read name =>
    cases he
    exact .unchanged (.inl rfl)
  | removeFile name =>
    cases he
    exact .removeFile
  | newTemp | readDir | nextEntry => cases he

/-- Every call on the files has one of the effects. -/
theorem effect_of_fileExec (he : fileExec o i root = some (a, root')) :
    DirEffect root o a root' := by
  cases i with
  | go => exact effect_of_go he
  | fails kept e => exact effect_of_fails he
  | named rand =>
    cases o with
    | newTemp =>
      simp only [fileExec] at he
      split at he
      · rename_i h
        cases he
        exact .newTemp h.2.2 (Option.isNone_iff_eq_none.mp h.2.1)
      · cases he
    | _ => cases he
  | entry name => cases o <;> cases he

/-- And so has every call on the directory, those of a scan included. -/
theorem step_of_dirExec (he : dirExec t o i d = some (a, d')) : DirStep t d o a d' := by
  have hfiles : ((fileExec o i d.here).map fun r => (r.1, d.change r.2 (o.changes r.1)))
      = some (a, d') → DirStep t d o a d' := by
    intro he
    obtain ⟨⟨a', root⟩, hexec, heq⟩ := Option.map_eq_some_iff.mp he
    cases heq
    exact .files (effect_of_fileExec hexec)
  cases o with
  | readDir =>
    cases i with
    | go =>
      cases he
      exact .opens
    | fails kept e =>
      cases he
      exact .opensNot e
    | named | entry => cases he
  | nextEntry =>
    cases i with
    | entry name =>
      obtain ⟨d₁, htells, heq⟩ := Option.map_eq_some_iff.mp he
      cases heq
      exact .tells htells
    | go =>
      simp only [dirExec] at he
      split at he
      · rename_i hover
        cases he
        exact .atEnd hover
      · cases he
    | fails kept e =>
      cases he
      exact .tellsNot e
    | named => cases he
  | _ => exact hfiles he

/-- A task that saves nothing has no temporary file. -/
theorem writing_idle (root : Root (List B)) : Writing .idle root :=
  ⟨fun _ h => (by cases h), fun _ _ h => (by cases h)⟩

/-- Whether a task is writing depends on its own temporary file alone. -/
theorem Writing.congr (h : Writing s root)
    (hread : ∀ tmp, s.owned = some tmp → root'.read tmp = root.read tmp) : Writing s root' := by
  refine ⟨fun tmp htmp => ?_, ?_⟩
  · rw [hread tmp htmp]
    exact h.1 tmp htmp
  · rintro tmp content rfl
    rw [hread tmp rfl]
    exact h.2 tmp content rfl

/-- A temporary file that is not one's own stays as it is, and does not become one's own. -/
theorem DirEffect.other {tmp : Str} (he : DirEffect root o a root') (ho : s.Allows o)
    (hjson : ¬ IsJson tmp) (hother : s.owned ≠ some tmp) (hthere : (root.read tmp).isSome) :
    root'.read tmp = root.read tmp ∧ (s.next o a).owned ≠ some tmp := by
  have hname : ∀ {name}, IsJson name → tmp ≠ name := fun h heq => hjson (heq ▸ h)
  cases he with
  | unchanged h =>
    refine ⟨rfl, ?_⟩
    cases o with
    | newTemp =>
      obtain ⟨e, rfl⟩ := h
      exact hother
    | append tmp' piece => exact h.elim
    | persist tmp' name =>
      obtain ⟨e, rfl⟩ := h
      obtain ⟨⟨content, rfl⟩, -⟩ := ho
      exact hother
    | unlink tmp' => exact fun h => by cases h
    | _ => exact hother
  | createDirAll => exact ⟨rfl, hother⟩
  | @newTemp rand hdot hfree =>
    have hne : tmp ≠ tempName rand := by
      rintro rfl
      rw [hfree] at hthere
      cases hthere
    exact ⟨Root.read_create_of_ne root hne, fun h => hne (Option.some.inj h).symm⟩
  | @append tmp' | @appendFailed tmp' =>
    obtain ⟨content, rfl⟩ := ho
    have hne : tmp ≠ tmp' := fun h => hother (congrArg some h.symm)
    refine ⟨?_, hother⟩
    rw [Root.read_append]
    simp [hne]
  | @persist tmp' name bytes h =>
    obtain ⟨⟨content, rfl⟩, hjson'⟩ := ho
    have hne : tmp ≠ tmp' := fun h => hother (congrArg some h.symm)
    refine ⟨?_, fun h => by cases h⟩
    rw [Root.read_persist_of_ne _ _ (hname hjson'), Root.read_removeFile_of_ne _ hne]
  | @unlink tmp' =>
    obtain ⟨e, rfl⟩ := ho
    have hne : tmp ≠ tmp' := fun h => hother (congrArg some h.symm)
    exact ⟨Root.read_removeFile_of_ne _ hne, fun h => by cases h⟩
  | removeFile => exact ⟨Root.read_removeFile_of_ne _ (hname ho), hother⟩

/-- **What a call does to the temporary file of its task.** -/
theorem Writing.own (h : Writing s root) (ho : s.Allows o) (he : DirEffect root o a root') :
    Writing (s.next o a) root' := by
  cases he with
  | unchanged hu =>
    cases o with
    | newTemp =>
      obtain ⟨e, rfl⟩ := hu
      exact h
    | append tmp' piece => exact hu.elim
    | persist tmp' name =>
      obtain ⟨e, rfl⟩ := hu
      obtain ⟨⟨content, rfl⟩, -⟩ := ho
      exact ⟨h.1, fun _ _ hs => by cases hs⟩
    | unlink tmp' => exact writing_idle _
    | _ => exact h
  | createDirAll => exact h
  | @newTemp rand hdot hfree =>
    have hread := Root.read_create_self root (tempName rand)
    refine ⟨?_, ?_⟩
    · rintro _ ⟨⟩
      exact ⟨not_isJson_tempName hdot, [], hread⟩
    · rintro _ _ ⟨⟩
      exact hread
  | @append tmp piece =>
    obtain ⟨content, rfl⟩ := ho
    have hread : (root.append tmp piece).read tmp = some (content ++ piece) := by
      rw [Root.read_append, h.2 tmp content rfl, Option.map_some, if_pos rfl]
    refine ⟨?_, ?_⟩
    · rintro _ ⟨⟩
      exact ⟨(h.1 tmp rfl).1, _, hread⟩
    · rintro _ _ ⟨⟩
      exact hread
  | @appendFailed tmp piece kept e =>
    obtain ⟨content, rfl⟩ := ho
    refine ⟨?_, fun _ _ hs => by cases hs⟩
    rintro _ ⟨⟩
    refine ⟨(h.1 tmp rfl).1, content ++ piece.take kept, ?_⟩
    rw [Root.read_append, h.2 tmp content rfl, Option.map_some, if_pos rfl]
  | persist hread =>
    obtain ⟨⟨content, rfl⟩, -⟩ := ho
    exact writing_idle _
  | unlink => exact writing_idle _
  | removeFile =>
    exact h.congr fun tmp htmp =>
      Root.read_removeFile_of_ne root fun heq => (h.1 tmp htmp).1 (heq ▸ ho)

/-- **What it does to those of the other tasks**: nothing. -/
theorem Writing.other (ho : s.Allows o) (he : DirEffect root o a root') (h : Writing s' root)
    (hapart : s.Apart s') : Writing s' root' ∧ (s.next o a).Apart s' := by
  have hkeep : ∀ tmp, s'.owned = some tmp →
      root'.read tmp = root.read tmp ∧ (s.next o a).owned ≠ some tmp := by
    intro tmp htmp
    obtain ⟨hjson, bytes, hread⟩ := h.1 tmp htmp
    exact he.other ho hjson (fun hs => hapart tmp hs htmp) (by rw [hread]; rfl)
  exact ⟨h.congr fun tmp htmp => (hkeep tmp htmp).1,
    fun tmp hs htmp => (hkeep tmp htmp).2 hs⟩

/-- A stream of entries concerns no temporary file. -/
theorem DirStep.here (he : DirStep t d o a d') :
    DirEffect d.here o a d'.here ∨ d'.here = d.here ∧ s.next o a = s := by
  cases he with
  | files h => exact .inl h
  | tells h => exact .inr ⟨Scanned.here_of_tells h, rfl⟩
  | opens | opensNot | atEnd | tellsNot => exact .inr ⟨rfl, rfl⟩

/-- A call of a scan leaves the temporary file of its task alone, the others do as `Writing.own`
says. -/
theorem DirStep.own (he : DirStep t d o a d') (h : Writing s d.here) (ho : s.Allows o) :
    Writing (s.next o a) d'.here := by
  rcases he.here (s := s) with heffect | ⟨hhere, hstage⟩
  · exact Writing.own h ho heffect
  · rwa [hhere, hstage]

/-- The same for the temporary files of the other tasks. -/
theorem DirStep.other (he : DirStep t d o a d') (ho : s.Allows o) (h : Writing s' d.here)
    (hapart : s.Apart s') : Writing s' d'.here ∧ (s.next o a).Apart s' := by
  rcases he.here (s := s) with heffect | ⟨hhere, hstage⟩
  · exact Writing.other ho heffect h hapart
  · rw [hhere, hstage]
    exact ⟨h, hapart⟩

end Steps

variable (B) in
/-- The temporary files of the tasks. -/
def tempFiles : Agreement (dirMachine B) (saveProtocol B) where
  agrees _ s d := Writing s d.here
  apart s s' := SaveStage.Apart s s'
  idle s := s = SaveStage.idle
  apart_symm h := fun tmp h' hs => h tmp hs h'
  own h ho he := (step_of_dirExec he).own h ho
  other _ ho he _ h' hapart := (step_of_dirExec he).other ho h' hapart
  tick {t s e w w'} he := e.elim
  drop_own {t s d} _ := ⟨.idle, rfl, writing_idle d.here, fun _ _ _ hs => by cases hs⟩
  drop_other _ h := h

/-! ## 2. What the directory stands for

Each call on the directory is a step of one operation of the store.  The rename is what makes a save
count, the read is what makes a load count, a removal is what makes a deletion count; every other
step leaves the store as it is. -/

section Meaning

variable {S : Type} (J : JobSnapshot S) (P : S → Prop) (U : UuidFormat) (txt : JsonWriter B)

/-- The snapshot files of the directory are those of the snapshots that are stored. -/
def Stores (root : Root (List B)) (m : List S) : Prop :=
  root.visible = m.map (entry J U txt.toJsonText) ∧ ∀ s ∈ m, P s

/-- So are the snapshot files that a scan comes across. -/
def Stands (d : Dir B) (v : Shelf S) : Prop :=
  Stores J P U txt d.here v.here ∧ d.Shows IsJson (pathFor U) v

/-- The operation of the store that a call is a step of: the content that is renamed is that of the
snapshot, and all of it. -/
def towards (s : SaveStage B) : DirOp B → AtomicOp S → Prop
  | .persist tmp name, .save snap =>
    s = .temp tmp (written J txt.toJsonText snap) ∧ P snap ∧ name = pathFor U (J.uuid snap)
  | .createDirAll, .save _ | .newTemp, .save _ | .append _ _, .save _ | .unlink _, .save _ => True
  | .read name, .load u => name = pathFor U u
  | .removeFile name, .delete u => name = pathFor U u
  | .readDir, .openScan | .nextEntry, .nextEntry => True
  | _, _ => False

/-- The uuid in the name of a snapshot file. -/
def uuidOf (name : Str) : Nat := (U.read (name.take (name.length - 5))).getD 0

/-- The name of a snapshot file tells its uuid. -/
theorem uuidOf_pathFor (u : Nat) : uuidOf U (pathFor U u) = u := by
  have htake : (pathFor U u).take ((pathFor U u).length - 5) = U.write u := by
    simp [pathFor]
  rw [uuidOf, htake, U.read_write, Option.getD_some]

/-- An entry that the code passes over has no uuid. -/
def entryUuid (name : Str) : Option Nat := if IsJson name then some (uuidOf U name) else none

/-- What counts: the rename, the read, the removal, each step of a scan; and of a save that fails,
the last of its calls. -/
def completes (s : SaveStage B) : (o : DirOp B) → o.Ans → (o' : AtomicOp S) → Option o'.Ans
  | .createDirAll, (r : Except Str Unit), .save _ =>
    match r with
    | .error e => some (.error (.mkdir e) : Except FsError Unit)
    | .ok () => none
  | .newTemp, (r : Except Str Str), .save _ =>
    match r with
    | .error e => some (.error (.tempfile e) : Except FsError Unit)
    | .ok _ => none
  | .persist _ _, (r : Except Str Unit), .save _ =>
    match r with
    | .error _ => none
    | .ok () => some (.ok () : Except FsError Unit)
  | .unlink _, _, .save _ =>
    match s with
    | .failed _ e => some (.error e : Except FsError Unit)
    | _ => none
  | .read name, r, .load _ => some (decodeRead J txt name r)
  | .removeFile name, (r : Except Str (Option Unit)), .delete _ =>
    match r with
    | .error e => some (.error (.delete name e) : Except FsError Unit)
    | .ok _ => some (.ok () : Except FsError Unit)
  | .readDir, (r : Except Str (Option Unit)), .openScan =>
    match r with
    | .error e => some (.error (.readDir e) : Except FsError Bool)
    | .ok r => some (.ok r.isSome : Except FsError Bool)
  | .nextEntry, (r : Except Str (Option Str)), .nextEntry =>
    match r with
    | .error e => some (.error (.nextEntry e) : Except FsError (Option (Option Nat)))
    | .ok r => some (.ok (r.map (entryUuid U)) : Except FsError (Option (Option Nat)))
  | _, _, _ => none

/-- All snapshot files have the name of a uuid. -/
def Possible : (o : DirOp B) → o.Ans → Prop
  | .nextEntry, (r : Except Str (Option Str)) =>
    ∀ name, r = .ok (some name) → IsJson name → ∃ u, name = pathFor U u
  | _, _ => True

variable {J P U txt} {names : List Str} {s : SaveStage B} {root root' : Root (List B)} {m : List S}
  {d d' : Dir B} {v : Shelf S} {t : Nat} {o : DirOp B} {o' : AtomicOp S} {a : o.Ans}

theorem Stands.possible (h : Stands J P U txt d v) (he : DirStep t d o a d') : Possible U o a := by
  cases he with
  | files h =>
    cases o with
    | nextEntry => cases h with | unchanged h => exact h.elim
    | _ => trivial
  | tells htells =>
    rintro name ⟨⟩ hjson
    obtain ⟨u, -, hu, -⟩ := h.2.tells (pathFor_injective U) (isJson_pathFor U) htells hjson
    exact ⟨u, hu.symm⟩
  | atEnd | tellsNot => exact fun name hname => by cases hname
  | opens | opensNot => trivial

/-- The name of a temporary file is not among the entries that show. -/
theorem filter_hidden {tmp : Str} (h : ¬ IsJson tmp) (names : List Str) :
    (tmp :: names).filter (fun name => IsJson name) = names.filter fun name => IsJson name :=
  List.filter_cons_of_neg (by simpa using h)

/-- A snapshot file is one of those that are listed. -/
theorem filter_pathFor (u : Nat) :
    [pathFor U u].filter (fun name => IsJson name) = [u].map (pathFor U) :=
  List.filter_cons_of_pos (by simpa using isJson_pathFor U u)

/-- A call that does not count leaves the store as it is, and changes no entry that shows. -/
theorem Stores.silent (h : Stores J P U txt root m) (hw : Writing s root) (ho : s.Allows o)
    (ht : towards J P U txt s o o') (he : DirEffect root o a root')
    (hc : completes J U txt s o a o' = none) :
    Stores J P U txt root' m ∧ (o.changes a).filter (fun name => IsJson name) = [] := by
  cases he with
  | unchanged hu =>
    refine ⟨h, ?_⟩
    cases o with
    | newTemp | persist | unlink | removeFile =>
      obtain ⟨e, rfl⟩ := hu
      rfl
    | _ => rfl
  | createDirAll => exact ⟨h, rfl⟩
  | newTemp hdot hfree =>
    have hjson := not_isJson_tempName hdot
    exact ⟨⟨(Root.visible_create root hjson).trans h.1, h.2⟩, filter_hidden hjson []⟩
  | append | appendFailed =>
    obtain ⟨content, rfl⟩ := ho
    exact ⟨⟨(Root.visible_append root _ (hw.1 _ rfl).1).trans h.1, h.2⟩, rfl⟩
  | persist hread =>
    cases o' with
    | save snap => cases hc
    | _ => exact ht.elim
  | unlink =>
    obtain ⟨e, rfl⟩ := ho
    have hjson := (hw.1 _ rfl).1
    exact ⟨⟨(Root.visible_removeFile_of_hidden root hjson).trans h.1, h.2⟩, filter_hidden hjson []⟩
  | removeFile =>
    cases o' with
    | delete u => cases hc
    | _ => exact ht.elim

/-- The file of a uuid is there if its snapshot is stored. -/
theorem Stores.read (h : Stores J P U txt root m) (u : Nat) :
    root.read (pathFor U u)
      = (m.find? fun s => J.uuid s = u).map fun s => written J txt.toJsonText s := by
  rw [Root.read_eq_visible root (isJson_pathFor U u), h.1, find_entry, Option.map_map]
  rfl

/-- A read gives what is stored under the uuid. -/
theorem Stores.decodeRead (h : Stores J P U txt root m) (hJ : J.Faithful P names) (u : Nat) :
    StateStore.decodeRead J txt (pathFor U u) (.ok (root.read (pathFor U u)))
      = .ok (m.find? fun s => J.uuid s = u) := by
  rw [h.read]
  cases hfind : m.find? (fun s => J.uuid s = u) with
  | none => rfl
  | some snap =>
    have hsnap := h.2 snap (List.mem_of_find?_eq_some hfind)
    simp only [Option.map_some, StateStore.decodeRead, decode_written txt.toJsonText hJ hsnap]
    rfl

/-- The entries that show are the files of the uuids that are stored. -/
theorem Stores.entries (h : Stores J P U txt root m) :
    (root.files.map Prod.fst).filter (fun name => IsJson name)
      = (m.map J.uuid).map (pathFor U) := by
  rw [List.filter_map, Function.comp_def, List.map_map]
  exact (congrArg (List.map Prod.fst) h.1).trans (by simp [entry])

/-- The rename puts the snapshot in place of the one of its uuid. -/
theorem Stores.persist (h : Stores J P U txt root m) {tmp : Str} (hjson : ¬ IsJson tmp) {snap : S}
    (hsnap : P snap) : Stores J P U txt ((root.removeFile tmp).persist (pathFor U (J.uuid snap))
      (written J txt.toJsonText snap)) ((inMemory J).save snap m).2 := by
  refine ⟨?_, fun s hs => ?_⟩
  · rw [Root.visible_persist _ _ (isJson_pathFor U _), Root.visible_removeFile_of_hidden root hjson,
      h.1, filter_entries]
    rfl
  · rcases List.mem_cons.mp hs with rfl | hs
    · exact hsnap
    · exact h.2 s (List.mem_of_mem_filter hs)

theorem Stores.removeFile (h : Stores J P U txt root m) (u : Nat) :
    Stores J P U txt (root.removeFile (pathFor U u)) ((inMemory J).delete u m).2 := by
  refine ⟨?_, fun s hs => h.2 s (List.mem_of_mem_filter hs)⟩
  rw [Root.visible_removeFile, h.1, filter_entries]
  rfl

/-- An operation that leaves the files as they were completes one that leaves the store as it
was. -/
theorem Stores.unchanged (h : Stores J P U txt root m) (hJ : J.Faithful P names) {b : o'.Ans}
    (ho : s.Allows o) (ht : towards J P U txt s o o') (hu : o.Unchanged root a)
    (hc : completes J U txt s o a o' = some b) :
    ∃ i', storeExec J o' i' m = some (b, m) ∧ o.changes a = [] ∧ o'.changes J m b = [] := by
  cases o with
  | createDirAll | newTemp =>
    obtain ⟨e, rfl⟩ := hu
    cases o' with
    | save snap =>
      cases hc
      exact ⟨.fails _, rfl, rfl, rfl⟩
    | _ => exact ht.elim
  | append tmp piece => exact hu.elim
  | persist tmp name =>
    obtain ⟨e, rfl⟩ := hu
    cases o' with
    | save snap => cases hc
    | _ => exact ht.elim
  | unlink tmp =>
    obtain ⟨e, rfl⟩ := ho
    obtain ⟨e', rfl⟩ := hu
    cases o' with
    | save snap =>
      cases hc
      exact ⟨.fails _, rfl, rfl, rfl⟩
    | _ => exact ht.elim
  | read name =>
    cases o' with
    | load u =>
      cases ht
      cases hc
      rcases hu with rfl | ⟨e, rfl⟩
      · refine ⟨.go, ?_, rfl, rfl⟩
        rw [h.decodeRead hJ]
        rfl
      · exact ⟨.fails _, rfl, rfl, rfl⟩
    | _ => exact ht.elim
  | readDir | nextEntry => exact hu.elim
  | removeFile name =>
    obtain ⟨e, rfl⟩ := hu
    cases o' with
    | delete u =>
      cases hc
      exact ⟨.fails _, rfl, rfl, rfl⟩
    | _ => exact ht.elim

/-- **The call that counts does what the operation does**, and changes the same entries. -/
theorem Stores.effect (h : Stores J P U txt root m) (hJ : J.Faithful P names) {b : o'.Ans}
    (hw : Writing s root) (ho : s.Allows o) (ht : towards J P U txt s o o')
    (he : DirEffect root o a root') (hc : completes J U txt s o a o' = some b) :
    ∃ i' m', storeExec J o' i' m = some (b, m') ∧ Stores J P U txt root' m' ∧
      (o.changes a).filter (fun name => IsJson name) = (o'.changes J m b).map (pathFor U) := by
  cases he with
  | unchanged hu =>
    obtain ⟨i', hi, hbelow, habove⟩ := h.unchanged hJ ho ht hu hc
    exact ⟨i', m, hi, h, by rw [hbelow, habove]; rfl⟩
  | createDirAll | newTemp =>
    cases o' with
    | save snap => cases hc
    | _ => exact ht.elim
  | append | appendFailed =>
    cases o' with
    | save snap => cases hc
    | _ => exact ht.elim
  -- the rename is the save
  | persist hread =>
    cases o' with
    | save snap =>
      obtain ⟨rfl, hsnap, rfl⟩ := ht
      cases hc
      cases hread.symm.trans (hw.2 _ _ rfl)
      have hjson := (hw.1 _ rfl).1
      exact ⟨.go, _, rfl, h.persist hjson hsnap, (filter_hidden hjson _).trans (filter_pathFor _)⟩
    | _ => exact ht.elim
  | unlink =>
    obtain ⟨e, rfl⟩ := ho
    cases o' with
    | save snap =>
      cases hc
      have hjson := (hw.1 _ rfl).1
      exact ⟨.fails _, m, rfl,
        ⟨(Root.visible_removeFile_of_hidden root hjson).trans h.1, h.2⟩, filter_hidden hjson []⟩
    | _ => exact ht.elim
  | removeFile =>
    cases o' with
    | delete u =>
      cases ht
      cases hc
      refine ⟨.go, _, rfl, h.removeFile u, ?_⟩
      rw [h.read, Option.map_map]
      simp only [AtomicOp.changes]
      cases m.find? (fun s => J.uuid s = u) with
      | none => rfl
      | some snap => exact filter_pathFor u
    | _ => exact ht.elim

theorem Stands.silent (h : Stands J P U txt d v) (hw : Writing s d.here) (ho : s.Allows o)
    (ht : towards J P U txt s o o') (he : DirStep t d o a d')
    (hc : completes J U txt s o a o' = none) : Stands J P U txt d' v := by
  cases he with
  | files he =>
    obtain ⟨hstores, hchanges⟩ := h.1.silent hw ho ht he hc
    exact ⟨hstores, h.2.change_hidden hchanges⟩
  | opens | opensNot =>
    cases o' with
    | openScan => cases hc
    | _ => exact ht.elim
  | tells | atEnd | tellsNot =>
    cases o' with
    | nextEntry => cases hc
    | _ => exact ht.elim

/-- A scan is opened; without a directory nothing is stored, and it finds nothing. -/
theorem Stands.opens (h : Stands J P U txt d v) (t : Nat) :
    ∃ i' v', atomicExec J t .openScan i' v =
        some ((.ok (d.here.map fun _ => ()).isSome : Except FsError Bool), v') ∧
      Stands J P U txt (d.opens t (d.here.files.map Prod.fst)) v' := by
  have hopens := h.2.opens (t := t) h.1.entries
  cases hhere : d.here with
  | none =>
    rw [hhere] at hopens
    have hnone : v.here = [] := by
      have hvisible := h.1.1
      rw [hhere] at hvisible
      exact List.map_eq_nil_iff.mp hvisible.symm
    rw [hnone] at hopens
    exact ⟨.nothing, _, if_pos (by rw [hnone]; rfl), h.1, hopens⟩
  | some fs =>
    rw [hhere] at hopens
    exact ⟨.go, _, rfl, h.1, hopens⟩

/-- What a scan is told next is a stored uuid above, if it is the name of a snapshot file. -/
theorem Stands.tells (h : Stands J P U txt d v) {name : Str} (htells : d.tells t name = some d') :
    ∃ i' v', atomicExec J t .nextEntry i' v =
        some ((.ok (some (entryUuid U name)) : Except FsError (Option (Option Nat))), v') ∧
      Stands J P U txt d' v' := by
  have hhere := Scanned.here_of_tells htells
  by_cases hjson : IsJson name
  · obtain ⟨u, v', rfl, htells', hshows⟩ :=
      h.2.tells (pathFor_injective U) (isJson_pathFor U) htells hjson
    refine ⟨.tells u, v', ?_, ?_, hshows⟩
    · simp only [atomicExec, htells', Option.map_some, entryUuid, if_pos hjson, uuidOf_pathFor]
      rfl
    · rw [hhere, Scanned.here_of_tells htells']
      exact h.1
  · refine ⟨.other, v, ?_, ?_, h.2.tells_hidden htells hjson⟩
    · simp only [atomicExec, entryUuid, if_neg hjson]
      rfl
    · rw [hhere]
      exact h.1

/-- **The call that counts does what the operation does.** -/
theorem Stands.effect (h : Stands J P U txt d v) (hJ : J.Faithful P names) {b : o'.Ans}
    (hw : Writing s d.here) (ho : s.Allows o) (ht : towards J P U txt s o o')
    (he : DirStep t d o a d') (hc : completes J U txt s o a o' = some b) :
    ∃ i' v', atomicExec J t o' i' v = some (b, v') ∧ Stands J P U txt d' v' := by
  cases he with
  | files he =>
    obtain ⟨i', m', hexec, hstores, hchanges⟩ := h.1.effect hJ hw ho ht he hc
    refine ⟨i', v.change m' (o'.changes J v.here b), ?_, hstores, h.2.change hchanges⟩
    exact atomicExec_of_storeExec hexec
  | opens =>
    cases o' with
    | openScan =>
      cases hc
      exact h.opens t
    | _ => exact ht.elim
  | opensNot e =>
    cases o' with
    | openScan =>
      cases hc
      exact ⟨.fails _, v, rfl, h⟩
    | _ => exact ht.elim
  | tells htells =>
    cases o' with
    | nextEntry =>
      cases hc
      exact h.tells htells
    | _ => exact ht.elim
  | atEnd hover =>
    cases o' with
    | nextEntry =>
      cases hc
      exact ⟨.go, v, if_pos (h.2.toEnd (pathFor_injective U) (isJson_pathFor U) hover), h⟩
    | _ => exact ht.elim
  | tellsNot e =>
    cases o' with
    | nextEntry =>
      cases hc
      exact ⟨.fails _, v, rfl, h⟩
    | _ => exact ht.elim

end Meaning

section Programs

variable {S : Type} {J : JobSnapshot S} {P : S → Prop} {names : List Str} (U : UuidFormat)
  (txt : JsonWriter B)

/-- **The files implement the atomic store.** -/
def fileStore (hJ : J.Faithful P names) :
    Implementation (dirMachine B) (saveProtocol B) (atomicMachine J) where
  toAgreement := tempFiles B
  below _ := rfl
  above _ := rfl
  Stands d v := Stands J P U txt d v
  towards s o o' := towards J P U txt s o o'
  possible _ o a := Possible U o a
  completes s o a o' := completes J U txt s o a o'
  possible_of_exec _ _ he h := Stands.possible h (step_of_dirExec he)
  silent hw ho ht he hc h := Stands.silent h hw ho ht (step_of_dirExec he) hc
  effect hw ho ht he hc h := Stands.effect h hJ hw ho ht (step_of_dirExec he) hc
  stands_tick {e _ _ _} _ := e.elim
  stands_drop h := h

/-! ## 3. The code of the store does the operations

One lemma for each function of the store, by its own structure: from where it stands, every answer
of the directory leads to a step of the operation that it carries out. -/

variable {hJ : J.Faithful P names} {α : Type} {s : SaveStage B}
  {Q : SaveStage B → α → Prop} {q : Prog (atomicSig S) α}

/-- One call, of an operation that is still to be completed. -/
theorem realizes_call {o : DirOp B} {f : o.Ans → Prog (dirSig B) α} {o' : AtomicOp S}
    {k' : o'.Ans → Prog (atomicSig S) α} (ho : s.Allows o) (ht : towards J P U txt s o o')
    (hx : ∀ x : o.Ans, Possible U o x → Realizes (fileStore U txt hJ) Q (s.next o x) (f x)
      (answered k' (completes J U txt s o x o'))) :
    Realizes (fileStore U txt hJ) Q s (callDir o >>= f) (.ask o' k') :=
  ⟨o', k', rfl, ho, ht, hx⟩

/-- The pieces end up in the temporary file, unless a write fails. -/
theorem realizes_writeAll {snap : S} {k' : Except FsError Unit → Prog (atomicSig S) α} {tmp : Str}
    {f : Except Str Unit → Prog (dirSig B) α} (pieces : List (List B)) (content : List B)
    (herror : ∀ e, Realizes (fileStore U txt hJ) Q (.failed tmp (.write e)) (f (.error e))
      (.ask (.save snap : AtomicOp S) k'))
    (hok : Realizes (fileStore U txt hJ) Q (.temp tmp (content ++ pieces.flatten)) (f (.ok ()))
      (.ask (.save snap : AtomicOp S) k')) :
    Realizes (fileStore U txt hJ) Q (.temp tmp content) (writeAll tmp pieces >>= f)
      (.ask (.save snap : AtomicOp S) k') := by
  induction pieces generalizing content with
  | nil =>
    rw [List.flatten_nil, List.append_nil] at hok
    exact hok
  | cons piece pieces ih =>
    rw [List.flatten_cons, ← List.append_assoc] at hok
    simp only [writeAll, bind_assoc]
    refine realizes_call U txt (o := .append tmp piece) ⟨content, rfl⟩ trivial fun r _ => ?_
    cases r with
    | error e => exact herror e
    | ok _ => exact ih (content ++ piece) hok

/-- A save that is renamed has written the whole document of its snapshot. -/
theorem realizes_writeAtomicJson {snap : S} (hsnap : P snap) :
    Realizes (fileStore U txt hJ) (fun s' _ => s' = .idle) .idle (writeAtomicJson J U txt snap)
      (callStore (.save snap)) := by
  obtain ⟨members, hvalue, -⟩ := hJ.toValue snap hsnap
  refine realizes_call U txt trivial trivial fun (r : Except Str Unit) _ => ?_
  cases r with
  | error e => exact realizes_ret rfl
  | ok _ =>
    dsimp only [completes]
    rw [hvalue]
    refine realizes_call U txt rfl trivial fun (r : Except Str Str) _ => ?_
    cases r with
    | error e => exact realizes_ret rfl
    | ok tmp =>
      refine realizes_writeAll U txt _ [] (fun e => ?_) ?_
      · exact realizes_call U txt ⟨_, rfl⟩ trivial fun _ _ => realizes_ret rfl
      · have hcontent : [] ++ (txt.pieces (envelope J members)).flatten
            = written J txt.toJsonText snap := by
          simp only [List.nil_append, txt.flatten_pieces, written, hvalue]
        rw [hcontent]
        refine realizes_call U txt ⟨⟨_, rfl⟩, isJson_pathFor U _⟩ ⟨rfl, hsnap, rfl⟩
          fun (r : Except Str Unit) _ => ?_
        cases r with
        | error e =>
          exact realizes_call U txt ⟨_, rfl⟩ trivial fun _ _ => realizes_ret rfl
        | ok _ => exact realizes_ret rfl

/-- A load is one read. -/
theorem realizes_loadFile (u : Nat) :
    Realizes (fileStore U txt hJ) (fun s' _ => s' = .idle) .idle (loadFile J U txt u)
      (callStore (.load u)) :=
  realizes_call U txt trivial rfl fun _ _ => realizes_ret rfl

/-- A delete is one removal; that there was nothing to remove is no error. -/
theorem realizes_deleteFile (u : Nat) :
    Realizes (fileStore U txt hJ) (fun s' _ => s' = .idle) .idle (deleteFile U u)
      (callStore (.delete u)) := by
  refine realizes_call U txt (isJson_pathFor U u) rfl fun (r : Except Str (Option Unit)) _ => ?_
  cases r <;> exact realizes_ret rfl

/-- The entries are loaded one by one, and what is no snapshot file is passed over. -/
theorem realizes_readEntries (rounds : Nat) :
    Realizes (fileStore U txt hJ) (fun s' _ => s' = .idle) .idle (readEntries J txt rounds)
      (loadEach rounds) := by
  induction rounds with
  | zero => exact realizes_ret rfl
  | succ rounds ih =>
    refine realizes_call U txt trivial trivial fun (r : Except Str (Option Str)) hpossible => ?_
    rcases r with e | _ | name
    · exact realizes_ret rfl
    · exact realizes_ret rfl
    · dsimp only [completes, Option.map_some, entryUuid]
      by_cases hjson : IsJson name
      · obtain ⟨u, rfl⟩ := hpossible name rfl hjson
        rw [if_pos hjson, if_pos hjson, uuidOf_pathFor]
        refine realizes_call U txt trivial rfl fun r _ => ?_
        dsimp only [completes]
        rcases decodeRead J txt (pathFor U u) r with e | _ | snap
        · exact ih
        · exact ih
        · exact realizes_bind ih fun s' rest hs' => realizes_ret hs'
      · rw [if_neg hjson, if_neg hjson]
        exact ih

/-- A directory that is not there has no entries. -/
theorem realizes_listDir (rounds : Nat) :
    Realizes (fileStore U txt hJ) (fun s' _ => s' = .idle) .idle (listDir J txt rounds)
      (listEach rounds) := by
  refine realizes_call U txt trivial trivial fun (r : Except Str (Option Unit)) _ => ?_
  rcases r with e | _ | ⟨⟨⟩⟩
  · exact realizes_ret rfl
  · exact realizes_ret rfl
  · exact realizes_readEntries U txt rounds

/-- **Each call of the store does its operations.** -/
theorem realizes_fsCall (rounds : Nat) {call : Call S}
    (hcall : ∀ snap, call = .save snap → P snap) :
    Realizes (fileStore U txt hJ) (fun s' _ => s' = .idle) .idle (fsCall J U txt rounds call)
      (atomicCall J rounds call) := by
  cases call with
  | save snap =>
    exact realizes_map _ (realizes_writeAtomicJson U txt (hcall snap rfl)) fun _ _ hs => hs
  | load u => exact realizes_map _ (realizes_loadFile U txt u) fun _ _ hs => hs
  | list => exact realizes_map _ (realizes_listDir U txt rounds) fun _ _ hs => hs
  | delete u => exact realizes_map _ (realizes_deleteFile U txt u) fun _ _ hs => hs
  | findByJobid j | findAllByJobid j =>
    exact realizes_map _ (realizes_listDir U txt rounds) fun _ _ hs => hs

/-- The calls of one client, one after another. -/
theorem realizes_client (rounds : Nat) {calls : List (Call S)}
    (hcalls : ∀ snap, .save snap ∈ calls → P snap) :
    Realizes (fileStore U txt hJ) (fun s' _ => s' = .idle) .idle
      (clientOf (fsCall J U txt rounds) calls) (clientOf (atomicCall J rounds) calls) := by
  induction calls with
  | nil => exact realizes_ret rfl
  | cons call calls ih =>
    refine realizes_bind (realizes_fsCall U txt rounds fun snap he => ?_) fun s' r hs' => ?_
    · exact hcalls snap (he ▸ List.mem_cons_self)
    · subst hs'
      refine realizes_bind (ih fun snap hsnap => hcalls snap (List.mem_cons_of_mem _ hsnap)) ?_
      exact fun s' rs hs' => realizes_ret hs'

/-! ## 4. The runs of the store

A scan gives up for want of rounds only after as many steps as it has rounds.  With this and the
simulation, the result holds of every run. -/

section Delays

theorem delays_callDir {bad : α → Prop} {o : DirOp B} {f : o.Ans → Prog (dirSig B) α} {n : Nat}
    (h : ∀ x, (f x).Delays bad (n - 1)) : (callDir o >>= f).Delays bad n := h

/-- The loop takes a step for each of its rounds. -/
theorem delays_readEntries (rounds : Nat) :
    (readEntries J txt rounds).Delays (fun r => r = none) rounds := by
  induction rounds with
  | zero => exact fun _ => rfl
  | succ rounds ih =>
    refine delays_callDir fun (r : Except Str (Option Str)) => ?_
    rcases r with e | _ | name
    · exact fun h => by cases h
    · exact fun h => by cases h
    · by_cases hjson : IsJson name
      · dsimp only
        rw [if_pos hjson]
        refine delays_callDir fun r => ?_
        have hrest : (readEntries J txt rounds).Delays (fun r => r = none) (rounds - 1) :=
          ih.mono (Nat.sub_le rounds 1)
        rcases decodeRead J txt name r with e | _ | snap
        · exact hrest
        · exact hrest
        · exact Prog.delays_bind hrest fun r hr hnone => (hr (Option.map_eq_none_iff.mp hnone)).elim
      · dsimp only
        rw [if_neg hjson]
        exact ih

/-- A scan that gives up for want of rounds has taken as many steps. -/
theorem delays_scan {reply : Except FsError (List S) → FsReply S}
    (hreply : ∀ r, reply r ≠ .scanning) (rounds : Nat) :
    (FsReply.ofScan reply <$> listDir J txt rounds).Delays (fun r => r = .scanning) rounds := by
  have hlist : (listDir J txt rounds).Delays (fun r => r = none) rounds := by
    refine delays_callDir fun (r : Except Str (Option Unit)) => ?_
    rcases r with e | _ | ⟨⟨⟩⟩
    · exact fun h => by cases h
    · exact fun h => by cases h
    · exact (delays_readEntries txt rounds).mono (Nat.sub_le rounds 1)
  refine Prog.delays_map hlist fun r hr => ?_
  rcases r with _ | r
  · exact (hr rfl).elim
  · exact hreply r

/-- Every other call goes through in any case. -/
theorem delays_fsCall (rounds : Nat) (call : Call S) :
    (fsCall J U txt rounds call).Delays (fun r => r = .scanning) rounds := by
  have hnever : ∀ {β : Type} (p : Prog (dirSig B) β) (f : β → FsReply S),
      (∀ b, f b ≠ .scanning) → (f <$> p).Delays (fun r => r = .scanning) rounds :=
    fun p f hf => Prog.delays_map (p.delays_of_not rounds fun _ h => (h : False)) fun b _ => hf b
  cases call with
  | save snap => exact hnever _ _ fun r h => by cases h
  | load u => exact hnever _ _ fun r h => by cases h
  | delete u => exact hnever _ _ fun r h => by cases h
  | list | findByJobid j | findAllByJobid j =>
    exact delays_scan txt (fun r h => by cases h) rounds

/-- And so of all the calls of a client. -/
theorem delays_client (rounds : Nat) (calls : List (Call S)) :
    (clientOf (fsCall J U txt rounds) calls).Delays (fun rs => .scanning ∈ rs) rounds := by
  induction calls with
  | nil => exact fun h => by cases h
  | cons call calls ih =>
    refine Prog.delays_bind (delays_fsCall U txt rounds call) fun r hr => ?_
    refine Prog.delays_bind ih fun rs hrs hmem => ?_
    rcases List.mem_cons.mp hmem with h | h
    · exact (hr h.symm).elim
    · exact (hrs h).elim

end Delays

variable {clients rounds : Nat} {calls : Nat → List (Call S)} {root : Root (List B)} {m : List S}

/-- **Saves are atomic.**  Whatever calls are made on a directory at the same time, however their
steps interleave, fail or are cut off by the death of a process: the calls return what they would
return on a store with atomic operations, and the snapshot files are what this store has then.  What
a scan returns comes from the entries that it has come across, in their order; it goes on to the
end, if its loop is given more rounds than the run has moves. -/
theorem saves_atomic {ms : List (Move (dirMachine B))}
    {c : Config (dirMachine B) (List (FsReply S))} (hJ : J.Faithful P names)
    (hcalls : ∀ t < clients, ∀ snap, .save snap ∈ calls t → P snap)
    (hroot : Stores J P U txt root m)
    (hr : (startClients (dirMachine B) (fsCall J U txt rounds) clients calls (.start root)).run ms
      = some c) :
    ∃ ms' d, (startClients (atomicMachine J) (atomicCall J rounds) clients calls (.start m)).run ms'
        = some d ∧
      (∀ t, c.result t = d.result t) ∧ (∀ t, c.tasks t = none ↔ d.tasks t = none) ∧
      Stores J P U txt c.world.here d.world.here ∧
      ∀ t rs, c.result t = some rs → RepliesFrom J rs (d.world.scans t).reverse ∧
        (ms.length < rounds → .scanning ∉ rs) := by
  have hstart : Simulates (fileStore U txt hJ)
      (startClients (dirMachine B) (fsCall J U txt rounds) clients calls (.start root))
      (startClients (atomicMachine J) (atomicCall J rounds) clients calls (.start m)) := by
    refine ⟨⟨hroot, Scanned.shows_start⟩, fun _ => .idle, fun t => ⟨writing_idle root, ?_⟩,
      fun _ _ _ _ hs => by cases hs⟩
    by_cases ht : t < clients
    · simp only [startClients, if_pos ht]
      exact realizes_client U txt rounds (hcalls t ht)
    · simp only [startClients, if_neg ht]
      exact (rfl : SaveStage.idle = SaveStage.idle)
  obtain ⟨ms', d, hrun, hsim⟩ := hstart.run hr
  refine ⟨ms', d, hrun, hsim.result, hsim.dropped, hsim.1.1, fun t rs hres => ⟨?_, fun hn => ?_⟩⟩
  · exact replies_of_run hrun (hsim.result t ▸ hres)
  · -- a scan that runs out of rounds has made a step in each
    have hdelays : ∀ u p, (startClients (dirMachine B) (fsCall J U txt rounds) clients calls
        (.start root)).tasks u = some p → p.Delays (fun rs => .scanning ∈ rs) rounds := by
      intro u p hp
      simp only [startClients] at hp
      split at hp
      · cases hp
        exact delays_client U txt rounds (calls u)
      · cases hp
    have hnot := Config.not_bad_of_run (fun _ => rfl) hdelays hr hn hres
    exact hnot

end Programs

/-- Every document is one byte, which is written after nothing. -/
def JsonWriter.documents : JsonWriter Json where
  print v := [v]
  parse bytes := bytes.head?
  parse_print _ _ := rfl
  pieces v := [[], [v]]
  flatten_pieces _ := rfl

/-- A job that is submitted while the directory is scanned. -/
def later : Sbatch.SbatchJobSnapshot := .submitted 9 12346 none

theorem later_storable : later.Storable where
  observed status h := by cases h
  finished f h := by cases h
  sentEnv := by decide

/-- One client lists a directory, one deletes a job and saves another, and one saves the first job
again. -/
def listedMeanwhile : Nat → List (Call Sbatch.SbatchJobSnapshot)
  | 0 => [.list]
  | 1 => [.delete 7, .save later]
  | _ => [.save waiting]

/-- At the start there is the file of one job. -/
def scannedByOne : Config (dirMachine Json) (List (FsReply Sbatch.SbatchJobSnapshot)) :=
  startClients (dirMachine Json)
    (fsCall (sbatch UuidFormat.hyphenated.toTextFormat epoch) .hyphenated .documents 20) 3
    listedMeanwhile
    (.start (some [entry (sbatch UuidFormat.hyphenated.toTextFormat epoch) .hyphenated
      JsonWriter.documents.toJsonText waiting]))

/-- One step of client `t`. -/
def steps (t : Nat) : Move (dirMachine Json) := .pass t .go

/-- Client `t` is told of an entry. -/
def tells (t : Nat) (name : Str) : Move (dirMachine Json) := .pass t (.entry name)

/-- The third client dies before it has written its file.  The scan has read the file of job 7 when
this is deleted, and comes across that of job 9, which is saved after that. -/
def diesWriting : List (Move (dirMachine Json)) :=
  [steps 2, .pass 2 (.named "aB3"), steps 2, steps 0, tells 0 (pathFor .hyphenated 7), steps 0,
    steps 1, steps 1, .pass 1 (.named "Xy7"), steps 1, .drop 2, steps 1, steps 1,
    tells 0 (pathFor .hyphenated 9), steps 0, tells 0 ".tmpaB3", steps 0]

/-- What the first client has listed. -/
def listedUuids : Option (List (FsReply Sbatch.SbatchJobSnapshot)) → Option (List Nat)
  | some [.listed (.ok snaps)] => some (snaps.map (·.uuid))
  | _ => none

theorem saves_atomic_diesWriting : ∃ c, scannedByOne.run diesWriting = some c ∧
    ((c.tasks 2).isNone && listedUuids (c.result 0) == some [7, 9] && (c.result 1).isSome &&
      c.world.here.files.length == 2) = true ∧
    ∃ ms' d, (startClients (atomicMachine (sbatch UuidFormat.hyphenated.toTextFormat epoch))
        (atomicCall (sbatch UuidFormat.hyphenated.toTextFormat epoch) 20) 3 listedMeanwhile
        (.start [waiting])).run ms' = some d ∧
      (∀ t, c.result t = d.result t) ∧ (∀ t, c.tasks t = none ↔ d.tasks t = none) ∧
      Stores (sbatch UuidFormat.hyphenated.toTextFormat epoch) Sbatch.SbatchJobSnapshot.Storable
        .hyphenated .documents c.world.here d.world.here ∧
      ∀ t rs, c.result t = some rs →
        RepliesFrom (sbatch UuidFormat.hyphenated.toTextFormat epoch) rs
          (d.world.scans t).reverse ∧ (diesWriting.length < 20 → .scanning ∉ rs) := by
  have hreached : ∃ c, scannedByOne.run diesWriting = some c ∧
      ((c.tasks 2).isNone && listedUuids (c.result 0) == some [7, 9] && (c.result 1).isSome &&
        c.world.here.files.length == 2) = true :=
    Config.exists_run (by decide +kernel)
  obtain ⟨c, hr, hc⟩ := hreached
  refine ⟨c, hr, hc, saves_atomic .hyphenated .documents
    (sbatch_faithful UuidFormat.hyphenated.toTextFormat epoch) (fun t _ snap hsnap => ?_)
    ⟨rfl, fun s hs => ?_⟩ hr⟩
  · rcases t with _ | _ | t
    · simp [listedMeanwhile] at hsnap
    · obtain rfl : snap = later := by simpa [listedMeanwhile] using hsnap
      exact later_storable
    · obtain rfl : snap = waiting := by simpa [listedMeanwhile] using hsnap
      exact waiting_storable
  · obtain rfl : s = waiting := by simpa using hs
    exact waiting_storable

end StateStore

/-
# Attaching by file and by uuid

`SbatchManager::attach` and `TssrunManager::attach` on a manager whose store is a directory.  With
a uuid they ask the store; with a file they read it themselves, each in its own way: the one checks
the kind and not the version, the other checks neither and reads the text as it stands.  So the
two routes agree on a file under a condition (`attach_file_agrees`).
-/
import SlurmRunner.StateStore.Coexist

namespace StateStore

open Text Serde

variable {S Bytes : Type} (U : UuidFormat) (T : TextFormat Nat) (txt : JsonText Bytes)

/-! ## 1. The managers

Both managers read the file themselves: the one reads its value and checks the kind, the other one
reads the text with the derived reader. -/

/-- Why a file could not be read as a snapshot. -/
inductive AttachIo where
  | store (e : StoreError)
  | read
  | json
  | body

inductive SbatchAttachKey where
  | uuid (u : Nat)
  | jobId (j : UInt64)
  /-- The path of a file in the directory. -/
  | file (name : Str)

inductive SbatchAttachError where
  | notFound (key : SbatchAttachKey)
  | kindMismatch (expected got : Str)
  | multipleMatch (jobid : UInt64) (count : Nat)
  | io (e : AttachIo)

/-- `SbatchManager::attach`, up to the snapshot of the new handle; `listed` is what a scan of the
directory returns. -/
def attachSbatch (root : Root Bytes) (listed : List Sbatch.SbatchJobSnapshot) :
    SbatchAttachKey → Except SbatchAttachError Sbatch.SbatchJobSnapshot
  | .uuid u =>
    match (fileSystem (sbatch U.toTextFormat T) U txt).load u root with
    | .error e => .error (.io (.store e))
    | .ok none => .error (.notFound (.uuid u))
    | .ok (some snap) => .ok snap
  | .jobId j =>
    let snaps := allByJobid (sbatch U.toTextFormat T) j listed
    if 1 < snaps.length then .error (.multipleMatch j snaps.length)
    else match snaps.head? with
      | none => .error (.notFound (.jobId j))
      | some snap => .ok snap
  | .file name =>
    match root.read name with
    | none => .error (.io .read)
    | some bytes =>
      match txt.value bytes with
      | none => .error (.io .json)
      | some v =>
        match (kindOf v).filter fun k => k ≠ (sbatch U.toTextFormat T).kind with
        | some k => .error (.kindMismatch (sbatch U.toTextFormat T).kind k)
        | none =>
          match (sbatch U.toTextFormat T).fromValue v with
          | none => .error (.io .body)
          | some snap => .ok snap

inductive AttachKey where
  | uuid (u : Nat)
  | pid (p : UInt32)
  | jobId (j : UInt64)
  /-- The path of a file in the directory. -/
  | file (name : Str)

inductive TssrunAttachError where
  | notFound (key : AttachKey)
  | io (e : AttachIo)

/-- `TssrunManager::attach`, up to the snapshot of the new handle. -/
def attachTssrun (root : Root Bytes) (listed : List Tssrun.TssrunJobSnapshot) :
    AttachKey → Except TssrunAttachError Tssrun.TssrunJobSnapshot
  | .uuid u =>
    match (fileSystem (tssrun U.toTextFormat) U txt).load u root with
    | .error e => .error (.io (.store e))
    | .ok none => .error (.notFound (.uuid u))
    | .ok (some snap) => .ok snap
  | .pid p =>
    match listed.find? fun s => s.pid = p with
    | none => .error (.notFound (.pid p))
    | some snap => .ok snap
  | .jobId j =>
    match firstByJobid (tssrun U.toTextFormat) j listed with
    | none => .error (.notFound (.jobId j))
    | some snap => .ok snap
  | .file name =>
    match root.read name with
    | none => .error (.io .read)
    | some bytes =>
      -- `from_slice`: the text is not made a value first
      match (txt.parse bytes).bind (Tssrun.TssrunJobSnapshot.reader U.toTextFormat true) with
      | none => .error (.io .body)
      | some snap => .ok snap

/-! ## 2. What each route accepts

The three decoders, as conditions on the content of one file. -/

/-- The kind of a file is not a foreign one. -/
def kindFits (J : JobSnapshot S) (v : Json) : Bool := (kindOf v).all fun k => k == J.kind

section Routes

variable {U T txt} {root : Root Bytes} {u : Nat} {bytes : Bytes}

/-- The store asks for a supported version, for its own kind, and for the fields. -/
theorem load_iff {J : JobSnapshot S} (hfile : root.read (pathFor U u) = some bytes) (s : S) :
    (fileSystem J U txt).load u root = .ok (some s) ↔
      ∃ v, txt.value bytes = some v ∧ schemaSupported v = true ∧ kindFits J v = true ∧
        J.fromValue v = some s := by
  simp only [fileSystem, hfile, decodeWithKindCheck, kindFits]
  cases hv : txt.value bytes with
  | none => simp
  | some v =>
    simp only [Option.some.injEq, exists_eq_left']
    by_cases hschema : schemaSupported v = true
    · by_cases hkind : ((kindOf v).all fun k => k == J.kind) = true
      · cases hbody : J.fromValue v <;> simp [hschema, hkind]
      · simp [hschema, hkind]
    · simp [hschema]

/-- The sbatch manager does not look at the version. -/
theorem attachSbatch_file_iff (hfile : root.read (pathFor U u) = some bytes)
    (listed : List Sbatch.SbatchJobSnapshot) (s : Sbatch.SbatchJobSnapshot) :
    attachSbatch U T txt root listed (.file (pathFor U u)) = .ok s ↔
      ∃ v, txt.value bytes = some v ∧ kindFits (sbatch U.toTextFormat T) v = true ∧
        (sbatch U.toTextFormat T).fromValue v = some s := by
  simp only [attachSbatch, hfile, kindFits]
  cases hv : txt.value bytes with
  | none => simp
  | some v =>
    simp only [Option.some.injEq, exists_eq_left']
    cases hkind : kindOf v with
    | none => cases hbody : (sbatch U.toTextFormat T).fromValue v <;> simp
    | some k =>
      by_cases hk : k = (sbatch U.toTextFormat T).kind
      · cases hbody : (sbatch U.toTextFormat T).fromValue v <;> simp [Option.filter, hk]
      · simp [Option.filter, hk]

/-- The tssrun manager looks at the fields only, and at the text as it stands. -/
theorem attachTssrun_file_iff (hfile : root.read (pathFor U u) = some bytes)
    (listed : List Tssrun.TssrunJobSnapshot) (s : Tssrun.TssrunJobSnapshot) :
    attachTssrun U txt root listed (.file (pathFor U u)) = .ok s ↔
      ∃ doc, txt.parse bytes = some doc ∧
        Tssrun.TssrunJobSnapshot.reader U.toTextFormat true doc = some s := by
  simp only [attachTssrun, hfile]
  cases hdoc : txt.parse bytes with
  | none => simp
  | some doc =>
    cases hbody : Tssrun.TssrunJobSnapshot.reader U.toTextFormat true doc <;> simp [hbody]

end Routes

/-! ## 3. When the routes agree

So they agree exactly on the files of which the remaining conditions hold anyway. -/

/-- A file that is an sbatch snapshot but for its version has a supported version. -/
def SbatchFits (bytes : Bytes) : Prop :=
  ∀ v, txt.value bytes = some v → kindFits (sbatch U.toTextFormat T) v = true →
    ((sbatch U.toTextFormat T).fromValue v).isSome → schemaSupported v = true

/-- A text that reads as a tssrun snapshot as it stands gives the paths of its log files by name
and has a value, with a supported version and no foreign kind; and one that does not read as it
stands is no snapshot either once of the members of one name all but the last are dropped. -/
def TssrunFits (bytes : Bytes) : Prop :=
  ∀ doc, txt.parse bytes = some doc →
    if (Tssrun.TssrunJobSnapshot.reader U.toTextFormat true doc).isSome then
      Tssrun.TssrunJobSnapshot.filesByName doc = true ∧
        ∃ v, doc.value = some v ∧ schemaSupported v = true ∧
          kindFits (tssrun U.toTextFormat) v = true
    else ∀ v, doc.value = some v → schemaSupported v = true →
      kindFits (tssrun U.toTextFormat) v = true →
        Tssrun.TssrunJobSnapshot.reader U.toTextFormat false v = none

section Agreement

variable {U T txt} {root : Root Bytes} {u : Nat} {bytes : Bytes}

/-- **The routes of the sbatch manager agree exactly on these files.** -/
theorem sbatch_agrees (hfile : root.read (pathFor U u) = some bytes)
    (listed : List Sbatch.SbatchJobSnapshot) :
    (∀ s, attachSbatch U T txt root listed (.file (pathFor U u)) = .ok s ↔
      (fileSystem (sbatch U.toTextFormat T) U txt).load u root = .ok (some s)) ↔
    SbatchFits U T txt bytes := by
  simp only [attachSbatch_file_iff hfile, load_iff hfile]
  constructor
  · intro hagree v hv hkind hread
    obtain ⟨s, hs⟩ := Option.isSome_iff_exists.mp hread
    obtain ⟨v', hv', hschema, _⟩ := (hagree s).mp ⟨v, hv, hkind, hs⟩
    rw [hv, Option.some.injEq] at hv'
    exact hv' ▸ hschema
  · intro hfits s
    constructor
    · rintro ⟨v, hv, hkind, hs⟩
      exact ⟨v, hv, hfits v hv hkind (Option.isSome_iff_exists.mpr ⟨s, hs⟩), hkind, hs⟩
    · rintro ⟨v, hv, _, hkind, hs⟩
      exact ⟨v, hv, hkind, hs⟩

/-- **The routes of the tssrun manager agree exactly on these files.** -/
theorem tssrun_agrees (hfile : root.read (pathFor U u) = some bytes)
    (listed : List Tssrun.TssrunJobSnapshot) :
    (∀ s, attachTssrun U txt root listed (.file (pathFor U u)) = .ok s ↔
      (fileSystem (tssrun U.toTextFormat) U txt).load u root = .ok (some s)) ↔
    TssrunFits U txt bytes := by
  have hvalue : ∀ {doc}, txt.parse bytes = some doc → txt.value bytes = doc.value := by
    intro doc hdoc
    rw [JsonText.value, hdoc, Option.bind_some]
  simp only [attachTssrun_file_iff hfile, load_iff hfile]
  constructor
  · intro hagree doc hdoc
    split
    · rename_i hread
      obtain ⟨s, hs⟩ := Option.isSome_iff_exists.mp hread
      obtain ⟨v, hv, hschema, hkind, hs'⟩ := (hagree s).mp ⟨doc, hdoc, hs⟩
      rw [hvalue hdoc] at hv
      refine ⟨?_, v, hv, hschema, hkind⟩
      by_contra hname
      have hnone := Tssrun.TssrunJobSnapshot.reader_of_not_filesByName (U := U.toTextFormat)
        (Bool.eq_false_iff.mpr hname) hv
      cases hnone.symm.trans hs'
    · rename_i hread
      intro v hv hschema hkind
      by_contra hsome
      obtain ⟨s, hs⟩ := Option.ne_none_iff_exists'.mp hsome
      obtain ⟨doc', hdoc', hs'⟩ := (hagree s).mpr ⟨v, (hvalue hdoc).trans hv, hschema, hkind, hs⟩
      rw [hdoc, Option.some.injEq] at hdoc'
      subst hdoc'
      exact hread (Option.isSome_iff_exists.mpr ⟨s, hs'⟩)
  · intro hfits s
    constructor
    · rintro ⟨doc, hdoc, hs⟩
      have hdocfits := hfits doc hdoc
      rw [if_pos (Option.isSome_iff_exists.mpr ⟨s, hs⟩)] at hdocfits
      obtain ⟨hname, v, hv, hschema, hkind⟩ := hdocfits
      have hread := Tssrun.TssrunJobSnapshot.reader_of_filesByName hs hname
      exact ⟨v, (hvalue hdoc).trans hv, hschema, hkind,
        Tssrun.TssrunJobSnapshot.reader_stable U.toTextFormat false doc v s hread hv⟩
    · rintro ⟨v, hv, hschema, hkind, hs⟩
      obtain ⟨doc, hdoc, hdocv⟩ := Option.bind_eq_some_iff.mp hv
      have hdocfits := hfits doc hdoc
      split at hdocfits
      · rename_i hread
        obtain ⟨s', hs'⟩ := Option.isSome_iff_exists.mp hread
        have hread := Tssrun.TssrunJobSnapshot.reader_of_filesByName hs' hdocfits.1
        have hsame :=
          Tssrun.TssrunJobSnapshot.reader_stable U.toTextFormat false doc v s' hread hdocv
        have hs : Tssrun.TssrunJobSnapshot.reader U.toTextFormat false v = some s := hs
        rw [hs, Option.some.injEq] at hsame
        exact ⟨doc, hdoc, hsame ▸ hs'⟩
      · have hnone : Tssrun.TssrunJobSnapshot.reader U.toTextFormat false v = none :=
          hdocfits v hdocv hschema hkind
        cases hnone.symm.trans hs

end Agreement

/-- On a file of any contents, attaching by file and loading by uuid agree if and only if the file
fits, for either manager. -/
theorem attach_file_agrees (u : Nat) (bytes : Bytes) (root : Root Bytes)
    (hfile : root.read (pathFor U u) = some bytes)
    (sbatchListed : List Sbatch.SbatchJobSnapshot)
    (tssrunListed : List Tssrun.TssrunJobSnapshot) :
    ((∀ s, attachSbatch U T txt root sbatchListed (.file (pathFor U u)) = .ok s ↔
        (fileSystem (sbatch U.toTextFormat T) U txt).load u root = .ok (some s)) ↔
      SbatchFits U T txt bytes) ∧
    ((∀ s, attachTssrun U txt root tssrunListed (.file (pathFor U u)) = .ok s ↔
        (fileSystem (tssrun U.toTextFormat) U txt).load u root = .ok (some s)) ↔
      TssrunFits U txt bytes) :=
  ⟨sbatch_agrees hfile sbatchListed, tssrun_agrees hfile tssrunListed⟩

/-- A directory with one file. -/
def oneFile (u : Nat) (doc : Json) : Root Json := some [(pathFor .hyphenated u, doc)]

/-- The directory has the one file. -/
theorem read_oneFile (u : Nat) (doc : Json) :
    (oneFile u doc).read (pathFor .hyphenated u) = some doc := by
  simp [oneFile, Root.read, Root.files]

/-- A file that the store has written is attached as the store loads it. -/
theorem attach_file_agrees_waiting :
    attachSbatch .hyphenated epoch .documents
      (oneFile 7 (written (sbatch UuidFormat.hyphenated.toTextFormat epoch) .documents waiting)) []
      (.file (pathFor .hyphenated 7)) = .ok waiting := by
  have hfile := read_oneFile 7 (written (sbatch UuidFormat.hyphenated.toTextFormat epoch)
    .documents waiting)
  refine
    ((attach_file_agrees .hyphenated epoch .documents 7 _ _ hfile [] []).1.mpr ?_ waiting).mpr ?_
  · intro v hv _ _
    obtain ⟨v', hv', hschema, _⟩ := value_written JsonText.documents
      (sbatch_faithful UuidFormat.hyphenated.toTextFormat epoch) waiting_storable
    rw [hv, Option.some.injEq] at hv'
    exact hv' ▸ hschema
  · simp only [fileSystem, hfile]
    exact decode_written JsonText.documents
      (sbatch_faithful UuidFormat.hyphenated.toTextFormat epoch) waiting_storable _

/-- The file of a job, with tags of its own. -/
def tagged (names : List Str) (values : List Json) (kind : Str) (version : Nat) : Json :=
  .obj (names.zip values ++ tags kind version)

/-- An sbatch snapshot of a later version. -/
def newerWaiting : Json :=
  tagged Sbatch.SbatchJobSnapshot.names
    (Sbatch.SbatchJobSnapshot.values UuidFormat.hyphenated.toTextFormat epoch waiting) "sbatch" 2

/-- A tssrun snapshot that claims to be of the other kind. -/
def foreignLogin : Json :=
  tagged Tssrun.TssrunJobSnapshot.names
    (Tssrun.TssrunJobSnapshot.values UuidFormat.hyphenated.toTextFormat login) "sbatch" 1

section Tagged

variable {names : List Str} {values : List Json} {kind : Str} {version : Nat}

/-- A document with a kind and a version is its own value. -/
theorem tagged_value (hnames : names.Nodup) (hlen : names.length = values.length)
    (h : ("kind" : Str) ∉ names ∧ ("schema_version" : Str) ∉ names)
    (hvalues : ∀ v ∈ values, v.isPlain = true) (hversion : version < 2 ^ 64) :
    (tagged names values kind version).value = some (tagged names values kind version) := by
  have hfst : (names.zip values).map Prod.fst = names := List.map_fst_zip (Nat.le_of_eq hlen)
  refine Json.value_of_isPlain (Json.obj_isPlain_append
    (writeRecord_isPlain hnames hlen hvalues) (tags_isPlain kind hversion) ?_)
  rw [hfst]
  exact tags_notMem h kind version

/-- Its kind and its version are those it was tagged with. -/
theorem tagged_get (hlen : names.length = values.length)
    (h : ("kind" : Str) ∉ names ∧ ("schema_version" : Str) ∉ names) :
    kindOf (tagged names values kind version) = some kind ∧
      (tagged names values kind version).get "schema_version" = some (.num version) := by
  have hfst : (names.zip values).map Prod.fst = names := List.map_fst_zip (Nat.le_of_eq hlen)
  constructor
  · rw [kindOf, tagged, get_append (hfst.symm ▸ h.1)]
    rfl
  · rw [tagged, get_append (hfst.symm ▸ h.2)]
    rfl

end Tagged

/-- The sbatch manager attaches to a file of a later version that the store refuses, and the tssrun
manager to one of another kind that the store skips. -/
theorem attach_file_unchecked :
    (attachSbatch .hyphenated epoch .documents (oneFile 7 newerWaiting) []
        (.file (pathFor .hyphenated 7)) = .ok waiting ∧
      ∀ s, (fileSystem (sbatch UuidFormat.hyphenated.toTextFormat epoch) .hyphenated
        .documents).load 7 (oneFile 7 newerWaiting) ≠ .ok (some s)) ∧
    (attachTssrun .hyphenated .documents (oneFile 3 foreignLogin) []
        (.file (pathFor .hyphenated 3)) = .ok login ∧
      ∀ s, (fileSystem (tssrun UuidFormat.hyphenated.toTextFormat) .hyphenated
        .documents).load 3 (oneFile 3 foreignLogin) ≠ .ok (some s)) := by
  have huntagged := (sbatch_faithful UuidFormat.hyphenated.toTextFormat epoch).untagged
  have huntagged' := (tssrun_faithful UuidFormat.hyphenated.toTextFormat).untagged
  have hvalue : JsonText.documents.value newerWaiting = some newerWaiting :=
    tagged_value Sbatch.SbatchJobSnapshot.names_nodup rfl huntagged
      (Sbatch.SbatchJobSnapshot.values_isPlain _ _ waiting_storable) (by decide)
  have hvalue' : JsonText.documents.value foreignLogin = some foreignLogin :=
    tagged_value Tssrun.TssrunJobSnapshot.names_nodup rfl huntagged'
      (Tssrun.TssrunJobSnapshot.values_isPlain _ login_storable) (by decide)
  refine ⟨⟨?_, ?_⟩, ?_, ?_⟩
  · refine (attachSbatch_file_iff (read_oneFile 7 _) [] waiting).mpr
      ⟨newerWaiting, hvalue, ?_, ?_⟩
    · rw [kindFits, newerWaiting, (tagged_get rfl huntagged).1]
      rfl
    · exact Sbatch.SbatchJobSnapshot.reader_append UuidFormat.hyphenated.toTextFormat epoch
        waiting_storable (tags_notMem huntagged "sbatch" 2)
  · intro s hload
    obtain ⟨v, hv, hschema, _⟩ := (load_iff (read_oneFile 7 _) s).mp hload
    rw [hvalue, Option.some.injEq] at hv
    rw [← hv, schemaSupported, newerWaiting, (tagged_get rfl huntagged).2] at hschema
    revert hschema
    decide
  · exact (attachTssrun_file_iff (read_oneFile 3 _) [] login).mpr ⟨foreignLogin, rfl,
      Tssrun.TssrunJobSnapshot.reader_append _ true login_storable (tags_notMem huntagged' _ _)⟩
  · intro s hload
    obtain ⟨v, hv, _, hkind, _⟩ := (load_iff (read_oneFile 3 _) s).mp hload
    rw [hvalue', Option.some.injEq] at hv
    rw [← hv, kindFits, foreignLogin, (tagged_get rfl huntagged').1] at hkind
    revert hkind
    decide

end StateStore

/-
# The store in a directory

`FileSystemStateStore`: a snapshot is the file `{uuid}.json`, an object with the fields of the
snapshot and two more, `kind` and `schema_version`.  File operations do not fail.

A program writes and parses JSON as the library does it, whatever the type of the bytes is
(`JsonText`): what is plain is parsed back from its text.
-/
import SlurmRunner.StateStore.Trait
import SlurmRunner.Text.Hex

namespace StateStore

open Text Serde

variable {S Bytes : Type}

/-! ## 1. Files

A directory with the contents of its files, by their names.  It need not be there at all, which is
read as an empty one. -/

/-- The JSON library: it parses what it has written. -/
structure JsonText (Bytes : Type) where
  print : Json → Bytes
  parse : Bytes → Option Json
  parse_print : ∀ v, v.isPlain = true → parse (print v) = some v

/-- Every document stands for its own text. -/
def JsonText.documents : JsonText Json := ⟨id, some, fun _ _ => rfl⟩

/-- `serde_json::from_slice::<Value>`. -/
def JsonText.value (txt : JsonText Bytes) (bytes : Bytes) : Option Json :=
  (txt.parse bytes).bind Json.value

/-- The library of uuids: no uuid is written as the empty string. -/
structure UuidFormat extends TextFormat Nat where
  write_ne_nil : ∀ u, write u ≠ []

/-- `Display` of a uuid below `2 ^ 128`: its 32 digits in groups of 8, 4, 4, 4 and 12. -/
def hyphenated (u : Nat) : Str :=
  let q := u / 16 ^ 12
  hex (if u < 2 ^ 128 then 8 else u) (q / 16 ^ 4 / 16 ^ 4 / 16 ^ 4) ++ '-' ::
    (hex 4 (q / 16 ^ 4 / 16 ^ 4) ++ '-' :: (hex 4 (q / 16 ^ 4) ++ '-' ::
      (hex 4 q ++ '-' :: hex 12 u)))

/-- The digits of a uuid are read back, without the hyphens. -/
theorem readHex_hyphenated (u : Nat) :
    readHex 0 ((hyphenated u).filter (· ≠ '-')) = u := by
  have hlead : u / 16 ^ 12 / 16 ^ 4 / 16 ^ 4 / 16 ^ 4 < 16 ^ (if u < 2 ^ 128 then 8 else u) := by
    split
    · omega
    · exact Nat.lt_of_le_of_lt (by omega) (Nat.lt_pow_self (by omega : 1 < 16) : u < 16 ^ u)
  have hfilter : (hyphenated u).filter (· ≠ '-')
      = hex (if u < 2 ^ 128 then 8 else u) (u / 16 ^ 12 / 16 ^ 4 / 16 ^ 4 / 16 ^ 4) ++
        (hex 4 (u / 16 ^ 12 / 16 ^ 4 / 16 ^ 4) ++ (hex 4 (u / 16 ^ 12 / 16 ^ 4) ++
          (hex 4 (u / 16 ^ 12) ++ hex 12 u))) := by
    rw [hyphenated, filter_hex_hyphen, filter_hex_hyphen, filter_hex_hyphen, filter_hex_hyphen,
      filter_hex]
  rw [hfilter]
  simp only [readHex_append, readHex_hex, Nat.zero_mul, Nat.zero_add, Nat.mod_eq_of_lt hlead]
  omega

/-- The hyphenated format; what is read is the digits between the hyphens. -/
def UuidFormat.hyphenated : UuidFormat where
  write := StateStore.hyphenated
  read s := some (readHex 0 (s.filter (· ≠ '-')))
  read_write u := by rw [readHex_hyphenated]
  write_ne_nil u := by simp [StateStore.hyphenated]

/-- A directory: the contents of its files by their names; none if it was never created. -/
abbrev Root (Bytes : Type) := Option (List (Str × Bytes))

namespace Root

def files (root : Root Bytes) : List (Str × Bytes) := root.getD []

/-- `fs::read`; none stands for `NotFound`. -/
def read (root : Root Bytes) (name : Str) : Option Bytes :=
  (root.files.find? fun e => e.1 = name).map Prod.snd

/-- `create_dir_all`. -/
def make (root : Root Bytes) : Root Bytes := some root.files

/-- A new file takes the place of an old one with its name. -/
def persist (root : Root Bytes) (name : Str) (bytes : Bytes) : Root Bytes :=
  some ((name, bytes) :: root.files.filter fun e => e.1 ≠ name)

/-- `remove_file`; that the file is missing is not an error. -/
def removeFile (root : Root Bytes) (name : Str) : Root Bytes :=
  root.map fun fs => fs.filter fun e => e.1 ≠ name

@[simp] theorem files_none : files (none : Root Bytes) = [] := rfl

/-- The file is replaced, or added. -/
@[simp] theorem files_persist (root : Root Bytes) (name : Str) (bytes : Bytes) :
    (root.persist name bytes).files = (name, bytes) :: root.files.filter fun e => e.1 ≠ name :=
  rfl

/-- The file is removed. -/
@[simp] theorem files_removeFile (root : Root Bytes) (name : Str) :
    (root.removeFile name).files = root.files.filter fun e => e.1 ≠ name := by
  cases root <;> rfl

end Root

/-- `Path::extension`: what follows the last dot, unless the name begins with it. -/
def extension (name : Str) : Option Str :=
  match splitOnce '.' name.reverse with
  | some (ext, stem) => if stem = [] then none else some ext.reverse
  | none => none

/-! ## 2. The envelope

A snapshot is written as an object with its kind and the version of the schema beside the fields. -/

/-- `SCHEMA_VERSION`. -/
def schemaVersion : Nat := 1

/-- The version of a file is the supported one, or the file is older than the field. -/
def schemaSupported (v : Json) : Bool :=
  match v.get "schema_version" with
  | none => true
  | some version => version.asU64 == some schemaVersion

/-- The `kind` field, if it is a string. -/
def kindOf (v : Json) : Option Str := (v.get "kind").bind Json.asStr

/-- `decode_with_kind_check`. -/
def decodeWithKindCheck (J : JobSnapshot S) (txt : JsonText Bytes) (file : Str) (bytes : Bytes) :
    Except StoreError (Option S) :=
  match txt.value bytes with
  | none => .error (.decode file)
  | some v =>
    if schemaSupported v then
      if (kindOf v).all fun k => k == J.kind then
        match J.fromValue v with
        | some snap => .ok (some snap)
        | none => .error (.decodeBody file)
      else .ok none
    else .error (.unsupportedSchema ((v.get "schema_version").getD .null) file)

/-- The object that `write_atomic_json` writes. -/
def envelope (J : JobSnapshot S) (members : List (Str × Json)) : Json :=
  .obj (insertMember (insertMember members "kind" (.str J.kind)) "schema_version"
    (.num schemaVersion))

/-! ## 3. The store

The methods of the source, on the directory. -/

/-- The name of the file of a uuid. -/
def pathFor (U : UuidFormat) (u : Nat) : Str := U.write u ++ ".json"

/-- What `list` makes of the entries of the directory. -/
def scan (J : JobSnapshot S) (txt : JsonText Bytes) (entries : List (Str × Bytes)) : List S :=
  entries.filterMap fun e =>
    if extension e.1 = some "json" then
      match decodeWithKindCheck J txt e.1 e.2 with
      | .ok snap => snap
      | .error _ => none
    else none

/-- `FileSystemStateStore`. -/
def fileSystem (J : JobSnapshot S) (U : UuidFormat) (txt : JsonText Bytes) :
    JobStateStore S (Root Bytes) where
  fresh := none
  save snap root :=
    match J.toValue snap with
    | .obj members =>
      (.ok (), root.persist (pathFor U (J.uuid snap)) (txt.print (envelope J members)))
    | _ => (.error .notAnObject, root.make)
  load u root :=
    match root.read (pathFor U u) with
    | none => .ok none
    | some bytes => decodeWithKindCheck J txt (pathFor U u) bytes
  Lists root l := ∃ entries, entries.Perm root.files ∧ l = scan J txt entries
  delete u root := (.ok (), root.removeFile (pathFor U u))

/-! ## 4. File names

A uuid has a file of its own, whatever format it is written in. -/

/-- Two uuids have two files. -/
theorem pathFor_injective (U : UuidFormat) : Function.Injective (pathFor U) := fun _ _ h =>
  U.write_injective (List.append_cancel_right h)

/-- The extension is that of a snapshot. -/
theorem extension_pathFor (U : UuidFormat) (u : Nat) :
    extension (pathFor U u) = some "json" := by
  have hrev : (pathFor U u).reverse = "nosj".toList ++ '.' :: (U.write u).reverse := by
    simp [pathFor]
  rw [extension, hrev, splitOnce_append (by decide)]
  simp [U.write_ne_nil u]

/-! ## 5. Reading what was written

Through the envelope and the text: a snapshot that can be stored is the one that is loaded. -/

/-- The fields that the store adds to those of a snapshot. -/
def tags (kind : Str) (version : Nat) : List (Str × Json) :=
  [("kind", .str kind), ("schema_version", .num version)]

/-- The tags are a text and a number. -/
theorem tags_isPlain (kind : Str) {version : Nat} (h : version < 2 ^ 64) :
    (Json.obj (tags kind version)).isPlain = true := by
  rw [Json.obj_isPlain_iff]
  constructor
  · change ["kind".toList, "schema_version".toList].Nodup
    decide
  · simp [tags, num_isPlain h]

/-- They are none of the fields. -/
theorem tags_notMem {names : List Str}
    (h : ("kind" : Str) ∉ names ∧ ("schema_version" : Str) ∉ names) (kind : Str) (version : Nat) :
    ∀ m ∈ tags kind version, m.1 ∉ names := by
  intro m hm
  rcases List.mem_cons.mp hm with rfl | hm
  · exact h.1
  · rw [List.mem_singleton.mp hm]
    exact h.2

/-- A snapshot with the property `P` is written as an object of its own fields, and these are read
back, also with the tags behind them. -/
structure JobSnapshot.Faithful (J : JobSnapshot S) (P : S → Prop) (names : List Str) : Prop where
  untagged : ("kind" : Str) ∉ names ∧ ("schema_version" : Str) ∉ names
  toValue : ∀ s, P s → ∃ members, J.toValue s = .obj members ∧
    members.map Prod.fst = names ∧ (Json.obj members).isPlain = true ∧
    J.fromValue (.obj (members ++ tags J.kind schemaVersion)) = some s

section Faithful

variable {J : JobSnapshot S} {P : S → Prop} {names : List Str}

/-- The envelope adds its tags behind the fields. -/
theorem envelope_eq {members : List (Str × Json)} (hkind : ("kind" : Str) ∉ members.map Prod.fst)
    (hschema : ("schema_version" : Str) ∉ members.map Prod.fst) :
    envelope J members = .obj (members ++ tags J.kind schemaVersion) := by
  rw [envelope, insertMember_of_notMem hkind, insertMember_of_notMem, List.append_assoc]
  · rfl
  · rw [List.map_append, List.mem_append]
    rintro (h | h)
    · exact hschema h
    · have hne : ("schema_version" : Str) ≠ "kind" := by decide
      exact hne (List.mem_singleton.mp h)

/-- A member that is not among the fields is looked for behind them. -/
theorem get_append {members : List (Str × Json)} {name : Str}
    (h : name ∉ members.map Prod.fst) (rest : List (Str × Json)) :
    (Json.obj (members ++ rest)).get name = (Json.obj rest).get name := by
  induction members with
  | nil => rfl
  | cons m ms ih =>
    rw [List.map_cons, List.mem_cons, not_or] at h
    obtain ⟨k, v⟩ := m
    have hne : (name == k) = false := beq_eq_false_iff_ne.mpr h.1
    simp only [Json.get, List.cons_append, List.lookup_cons, hne] at ih ⊢
    exact ih h.2

/-- The envelope of a snapshot: it is plain, it has the tags, and the snapshot is read back. -/
theorem JobSnapshot.Faithful.envelope (h : J.Faithful P names) {s : S} (hs : P s) :
    ∃ members, J.toValue s = .obj members ∧ (envelope J members).isPlain = true ∧
      schemaSupported (envelope J members) = true ∧
      kindOf (envelope J members) = some J.kind ∧
      J.fromValue (StateStore.envelope J members) = some s := by
  obtain ⟨members, hvalue, hnames, hplain, hread⟩ := h.toValue s hs
  have hkind := h.untagged.1
  have hschema := h.untagged.2
  rw [← hnames] at hkind hschema
  refine ⟨members, hvalue, ?_⟩
  rw [envelope_eq hkind hschema]
  refine ⟨?_, ?_, ?_, hread⟩
  · exact Json.obj_isPlain_append hplain (tags_isPlain J.kind (by decide))
      (tags_notMem ⟨hkind, hschema⟩ J.kind schemaVersion)
  · rw [schemaSupported, get_append hschema]
    rfl
  · rw [kindOf, get_append hkind]
    rfl

/-- The text that a save writes. -/
def written (J : JobSnapshot S) (txt : JsonText Bytes) (s : S) : Bytes :=
  match J.toValue s with
  | .obj members => txt.print (StateStore.envelope J members)
  | v => txt.print v

/-- The file that a save writes. -/
def entry (J : JobSnapshot S) (U : UuidFormat) (txt : JsonText Bytes) (s : S) : Str × Bytes :=
  (pathFor U (J.uuid s), written J txt s)

variable (U : UuidFormat) (txt : JsonText Bytes)

/-- **A save puts the file of its snapshot in place.** -/
theorem save_eq (h : J.Faithful P names) {s : S} (hs : P s) (root : Root Bytes) :
    (fileSystem J U txt).save s root
      = (.ok (), root.persist (pathFor U (J.uuid s)) (written J txt s)) := by
  obtain ⟨members, hvalue, _⟩ := h.toValue s hs
  simp only [fileSystem, written, hvalue]

/-- **And the file has the value of the snapshot**, with its kind and version. -/
theorem value_written (h : J.Faithful P names) {s : S} (hs : P s) :
    ∃ v, txt.value (written J txt s) = some v ∧ schemaSupported v = true ∧
      kindOf v = some J.kind ∧ J.fromValue v = some s := by
  obtain ⟨members, hvalue, hplain, hschema, hkind, hread⟩ := h.envelope hs
  refine ⟨StateStore.envelope J members, ?_, hschema, hkind, hread⟩
  simp only [written, hvalue]
  rw [JsonText.value, txt.parse_print _ hplain, Option.bind_some, Json.value_of_isPlain hplain]

/-- The store reads back what it wrote. -/
theorem decode_written (h : J.Faithful P names) {s : S} (hs : P s) (file : Str) :
    decodeWithKindCheck J txt file (written J txt s) = .ok (some s) := by
  obtain ⟨v, hv, hschema, hkind, hread⟩ := value_written txt h hs
  simp only [decodeWithKindCheck, hv, hschema, hkind, hread, Option.all_some, beq_self_eq_true,
    if_true]

/-- A store of another kind leaves it alone. -/
theorem decode_foreign {S' : Type} {K : JobSnapshot S'} (h : J.Faithful P names) {s : S}
    (hs : P s) (hne : J.kind ≠ K.kind) (file : Str) :
    decodeWithKindCheck K txt file (written J txt s) = .ok none := by
  obtain ⟨v, hv, hschema, hkind, _⟩ := value_written txt h hs
  have hkind' : (J.kind == K.kind) = false := beq_eq_false_iff_ne.mpr hne
  simp only [decodeWithKindCheck, hv, hschema, hkind, hkind', Option.all_some, if_true,
    Bool.false_eq_true, if_false]

end Faithful

end StateStore

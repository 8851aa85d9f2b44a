/-
# The JSON form of a tssrun snapshot

The derived `Serialize` and `Deserialize` of `TssrunJobSnapshot`.  They read a text and a value in
memory alike but for one thing: the paths of `LogLocations::Files` may stand in an array in a text,
and only in an object in a value.
-/
import SlurmRunner.Serde.Reader
import SlurmRunner.Tssrun.Handle

namespace Tssrun

open Text Serde

/-! ## 1. The parts of a snapshot

The log locations are an enumeration with one variant that has fields, and the exit of the job is a
record of two. -/

namespace LogLocations

def fileNames : List Str := ["stdout", "stderr"]

def toValue : LogLocations → Json
  | .none => .str "None"
  | .files stdout stderr =>
    writeRecord ["Files"] [writeRecord fileNames [.str stdout, .str stderr]]

def filesReader : Reader LogLocations := Reader.record fileNames do
  let stdout ← required Reader.string
  let stderr ← required Reader.string
  return .files stdout stderr

/-- The content of `None`. -/
def unitVariant : Reader LogLocations
  | .null => some .none
  | _ => Option.none

/-- The content of `Files`. -/
def structVariant (inText : Bool) : Reader LogLocations
  | .obj members => filesReader (.obj members)
  | .arr elems => if inText then filesReader (.arr elems) else Option.none
  | _ => Option.none

/-- An enum is written by the name of its variant, alone or as the only member of an object. -/
def reader (inText : Bool) : Reader LogLocations
  | .str s => if s = "None" then some .none else Option.none
  | .obj [(name, content)] =>
    if name = "None" then unitVariant content
    else if name = "Files" then structVariant inText content
    else Option.none
  | _ => Option.none

end LogLocations

namespace FinishedInfo

def names : List Str := ["exit_code", "finished_at_unix"]

def toValue (f : FinishedInfo) : Json :=
  writeRecord names [writeOption .num f.exitCode, .num f.finishedAtUnix]

def reader : Reader FinishedInfo := Reader.record names do
  let exitCode ← optionalField Reader.i32
  let finishedAtUnix ← required Reader.i64
  return ⟨exitCode, finishedAtUnix⟩

end FinishedInfo

/-! ## 2. The snapshot

The fields are written in their order in the source, and on reading only the optional ones may be
missing. -/

namespace TssrunJobSnapshot

def names : List Str :=
  ["uuid", "pid", "argv", "sent_env", "cwd", "started_at_unix", "log_locations", "jobid", "node",
    "finished"]

/-- No two fields have the same name. -/
theorem names_nodup : names.Nodup := by decide +kernel

variable (U : TextFormat Nat)

def values (s : TssrunJobSnapshot) : List Json :=
  [U.writer s.uuid, .num s.pid.toNat, writeStrings s.argv, writeMap s.sentEnv,
    writeOption .str s.cwd, .num s.startedAtUnix, s.logLocations.toValue,
    writeOption (fun j => .num (UInt64.toNat j)) s.jobid, writeOption .str s.node,
    writeOption FinishedInfo.toValue s.finished]

def toValue (s : TssrunJobSnapshot) : Json := writeRecord names (values U s)

def body (inText : Bool) : FieldsReader TssrunJobSnapshot := do
  let uuid ← required U.reader
  let pid ← required Reader.u32
  let argv ← required Reader.string.list
  let sentEnv ← required Reader.string.map
  let cwd ← optionalField Reader.string
  let startedAtUnix ← required Reader.i64
  let logLocations ← required (LogLocations.reader inText)
  let jobid ← optionalField Reader.u64
  let node ← optionalField Reader.string
  let finished ← optionalField FinishedInfo.reader
  return ⟨uuid, pid, argv, sentEnv, cwd, startedAtUnix, logLocations, jobid, node, finished⟩

/-- `serde_json::from_value`, or `serde_json::from_slice` on the document of a text. -/
def reader (inText : Bool) : Reader TssrunJobSnapshot := Reader.record names (body U inText)

end TssrunJobSnapshot

/-! ## 3. What is written is read back

Each part, then the whole.  What is asked of a snapshot holds of every value of the source's types:
numbers in their range, and a map with no name twice. -/

/-- An exit code is an `i32`, and a time is an `i64`. -/
structure FinishedInfo.Storable (f : FinishedInfo) : Prop where
  exitCode : ∀ c ∈ f.exitCode, -2 ^ 31 ≤ c ∧ c < 2 ^ 31
  finishedAtUnix : -2 ^ 63 ≤ f.finishedAtUnix ∧ f.finishedAtUnix < 2 ^ 63

/-- The times are `i64`, and no variable of the environment is set twice. -/
structure TssrunJobSnapshot.Storable (s : TssrunJobSnapshot) : Prop where
  startedAtUnix : -2 ^ 63 ≤ s.startedAtUnix ∧ s.startedAtUnix < 2 ^ 63
  finished : ∀ f ∈ s.finished, f.Storable
  sentEnv : (s.sentEnv.map Prod.fst).Nodup

/-- Where the logs go is read back, from a text and from a value. -/
@[simp] theorem LogLocations.reader_toValue (inText : Bool) (l : LogLocations) :
    LogLocations.reader inText l.toValue = some l := by
  cases l with
  | none => rfl
  | files stdout stderr =>
    have hfiles : LogLocations.reader inText (files stdout stderr).toValue
        = filesReader (writeRecord fileNames [.str stdout, .str stderr]) := by
      simp [LogLocations.reader, toValue, writeRecord, structVariant]
    rw [hfiles]
    refine record_writeRecord (by decide +kernel) rfl ?_
    simp

/-- So is the exit of the job. -/
theorem FinishedInfo.reader_toValue {f : FinishedInfo} (h : f.Storable) :
    FinishedInfo.reader f.toValue = some f := by
  have hexit : Reader.i32.optional (writeOption .num f.exitCode) = some f.exitCode :=
    optional_writeOption (fun c hc => int_num (h.exitCode c hc)) fun _ _ => nofun
  have htime : Reader.i64 (.num f.finishedAtUnix) = some f.finishedAtUnix :=
    int_num h.finishedAtUnix
  refine record_writeRecord (by decide +kernel) rfl ?_
  simp [hexit, htime]

section Format

variable (U : TextFormat Nat)

/-- A snapshot is read back, also with members of other names behind it. -/
theorem TssrunJobSnapshot.reader_append (inText : Bool) {s : TssrunJobSnapshot} (h : s.Storable)
    {extra : List (Str × Json)} (hextra : ∀ m ∈ extra, m.1 ∉ names) :
    reader U inText (.obj (names.zip (values U s) ++ extra)) = some s := by
  have hstart : Reader.i64 (.num s.startedAtUnix) = some s.startedAtUnix :=
    int_num h.startedAtUnix
  have hjobid : Reader.u64.optional (writeOption (fun j => .num (UInt64.toNat j)) s.jobid)
      = some s.jobid :=
    optional_writeOption (fun j _ => u64_num j) fun _ _ => nofun
  have hfin : FinishedInfo.reader.optional (writeOption FinishedInfo.toValue s.finished)
      = some s.finished :=
    optional_writeOption (fun f hf => FinishedInfo.reader_toValue (h.finished f hf))
      fun _ _ => nofun
  refine record_append names_nodup rfl hextra ?_
  simp [values, body, hstart, hjobid, hfin, map_writeMap h.sentEnv, optional_str]

end Format

/-! ## 4. What is written is plain

No member is written twice and every number is in range, so the written document is its own
value. -/

theorem LogLocations.toValue_isPlain (l : LogLocations) : l.toValue.isPlain = true := by
  cases l with
  | none => rfl
  | files stdout stderr =>
    have hfiles : (writeRecord fileNames [.str stdout, .str stderr]).isPlain = true :=
      writeRecord_isPlain (by decide +kernel) rfl (by simp)
    exact writeRecord_isPlain (by decide +kernel) rfl (by simp [hfiles])

theorem FinishedInfo.toValue_isPlain {f : FinishedInfo} (h : f.Storable) :
    f.toValue.isPlain = true := by
  have hexit : (writeOption Json.num f.exitCode).isPlain = true :=
    writeOption_isPlain fun c hc => by
      obtain ⟨hlow, hhigh⟩ := h.exitCode c hc
      rw [Json.isPlain, decide_eq_true_eq]
      omega
  have htime : (Json.num f.finishedAtUnix).isPlain = true := by
    obtain ⟨hlow, hhigh⟩ := h.finishedAtUnix
    rw [Json.isPlain, decide_eq_true_eq]
    omega
  refine writeRecord_isPlain (by decide +kernel) rfl ?_
  simp [hexit, htime]

/-- What is written of each field is plain. -/
theorem TssrunJobSnapshot.values_isPlain (U : TextFormat Nat) {s : TssrunJobSnapshot}
    (h : s.Storable) : ∀ v ∈ values U s, v.isPlain = true := by
  have hpid : (Json.num s.pid.toNat).isPlain = true :=
    num_isPlain (by have := s.pid.toNat_lt; omega)
  have hstart : (Json.num s.startedAtUnix).isPlain = true := by
    obtain ⟨hlow, hhigh⟩ := h.startedAtUnix
    rw [Json.isPlain, decide_eq_true_eq]
    omega
  have hjobid : (writeOption (fun j => Json.num (UInt64.toNat j)) s.jobid).isPlain = true :=
    writeOption_isPlain fun j _ => num_isPlain j.toNat_lt
  have hfin : (writeOption FinishedInfo.toValue s.finished).isPlain = true :=
    writeOption_isPlain fun f hf => FinishedInfo.toValue_isPlain (h.finished f hf)
  simp [values, hpid, hstart, hjobid, hfin, TextFormat.writer, writeStrings_isPlain,
    writeMap_isPlain h.sentEnv, optionalStr_isPlain, LogLocations.toValue_isPlain]

/-! ## 5. A text and its value

A text is read either at once or through a `Value`, which keeps the last of the members of one
name.  Both give the same snapshot, except where the fields of `Files` stand in an array. -/

theorem LogLocations.filesReader_stable : filesReader.Stable :=
  .record <| .bind (.required .string) fun _ => .bind (.required .string) fun _ => .pure _

theorem LogLocations.unitVariant_stable : unitVariant.Stable := by
  intro v v' l hr hv
  cases v with
  | null =>
    rw [Json.value, Option.some.injEq] at hv
    exact hv ▸ hr
  | _ => cases hr

theorem LogLocations.structVariant_stable (inText : Bool) : (structVariant inText).Stable := by
  intro v v' l hr hv
  cases v with
  | obj members =>
    have hread := filesReader_stable _ v' l hr hv
    obtain ⟨members', _, rfl⟩ := Option.map_eq_some_iff.mp hv
    exact hread
  | arr elems =>
    cases inText with
    | true =>
      have hread := filesReader_stable _ v' l hr hv
      obtain ⟨elems', _, rfl⟩ := Option.map_eq_some_iff.mp hv
      exact hread
    | false => cases hr
  | _ => cases hr

theorem LogLocations.reader_stable (inText : Bool) : (LogLocations.reader inText).Stable := by
  intro v v' l hr hv
  unfold LogLocations.reader at hr
  split at hr
  · rename_i s
    rw [Json.value, Option.some.injEq] at hv
    subst hv
    exact hr
  · rename_i name content
    obtain ⟨members', hms, rfl⟩ := Option.map_eq_some_iff.mp hv
    rw [Json.memberValues_eq_some] at hms
    cases hms with
    | @cons _ m' _ _ hm hrest =>
      cases hrest
      obtain ⟨name', content'⟩ := m'
      obtain ⟨rfl, hcontent⟩ : name = name' ∧ content.value = some content' := hm
      have hlast : lastMembers [(name, content')] = [(name, content')] :=
        lastMembers_of_nodup (List.nodup_singleton name)
      simp only [hlast, LogLocations.reader]
      by_cases hnone : name = "None"
      · rw [if_pos hnone] at hr ⊢
        exact unitVariant_stable content content' l hr hcontent
      · rw [if_neg hnone] at hr ⊢
        by_cases hfiles : name = "Files"
        · rw [if_pos hfiles] at hr ⊢
          exact structVariant_stable inText content content' l hr hcontent
        · rw [if_neg hfiles] at hr
          cases hr
  · cases hr

theorem FinishedInfo.reader_stable : FinishedInfo.reader.Stable :=
  .record <| .bind (.optionalField .i32) fun _ => .bind (.required .i64) fun _ => .pure _

/-- A snapshot that is read from a text is read from its value as well. -/
theorem TssrunJobSnapshot.reader_stable (U : TextFormat Nat) (inText : Bool) :
    (reader U inText).Stable :=
  .record <| .bind (.required (.text U)) fun _ => .bind (.required .u32) fun _ =>
    .bind (.required (.list .string)) fun _ => .bind (.required (.map .string)) fun _ =>
    .bind (.optionalField .string) fun _ => .bind (.required .i64) fun _ =>
    .bind (.required (LogLocations.reader_stable inText)) fun _ =>
    .bind (.optionalField .u64) fun _ =>
    .bind (.optionalField .string) fun _ =>
    .bind (.optionalField FinishedInfo.reader_stable) fun _ => .pure _

/-- The paths of the log files are not given by place. -/
def LogLocations.byName : Json → Bool
  | .obj [(_, .arr _)] => false
  | _ => true

/-- In a document that reads as a snapshot, the paths of the log files are given by name. -/
def TssrunJobSnapshot.filesByName (doc : Json) : Bool :=
  match (fields names doc).bind fun fs => fs[6]?.join with
  | some v => LogLocations.byName v
  | none => true

theorem LogLocations.reader_of_byName {v : Json} (h : byName v = true) :
    LogLocations.reader false v = LogLocations.reader true v := by
  unfold LogLocations.reader
  split
  · rfl
  · rename_i name content
    cases content with
    | arr elems => cases h
    | _ => rfl
  · rfl

theorem LogLocations.reader_of_not_byName {v v' : Json} (h : byName v = false)
    (hv : v.value = some v') : LogLocations.reader false v' = Option.none := by
  unfold byName at h
  split at h
  · rename_i name elems
    obtain ⟨members', hms, rfl⟩ := Option.map_eq_some_iff.mp hv
    rw [Json.memberValues_eq_some] at hms
    cases hms with
    | @cons _ m' _ _ hm hrest =>
      cases hrest
      obtain ⟨name', content'⟩ := m'
      obtain ⟨rfl, hcontent⟩ : name = name' ∧ (Json.arr elems).value = some content' := hm
      obtain ⟨elems', _, rfl⟩ := Option.map_eq_some_iff.mp hcontent
      have hlast : lastMembers [(name, Json.arr elems')] = [(name, Json.arr elems')] :=
        lastMembers_of_nodup (List.nodup_singleton name)
      simp [hlast, LogLocations.reader, unitVariant, structVariant]
  · cases h

/-- The seventh field is that of the log files; the others are read alike. -/
theorem TssrunJobSnapshot.body_eq_some {U : TextFormat Nat} {inText : Bool}
    {fs : List (Option Json)} {p : TssrunJobSnapshot × List (Option Json)}
    (h : body U inText fs = some p) :
    ∃ v l, fs[6]?.join = some v ∧ LogLocations.reader inText v = some l ∧
      ∀ inText', LogLocations.reader inText' v = some l → body U inText' fs = some p := by
  simp only [body, bind_fields_eq_some] at h ⊢
  obtain ⟨a₀, f₁, h₀, a₁, f₂, h₁, a₂, f₃, h₂, a₃, f₄, h₃, a₄, f₅, h₄, a₅, f₆, h₅, l, f₇, h₆,
    hrest⟩ := h
  obtain ⟨_, rfl, _⟩ := required_eq_some h₀
  obtain ⟨_, rfl, _⟩ := required_eq_some h₁
  obtain ⟨_, rfl, _⟩ := required_eq_some h₂
  obtain ⟨_, rfl, _⟩ := required_eq_some h₃
  obtain ⟨_, rfl⟩ := optionalField_eq_some h₄
  obtain ⟨_, rfl, _⟩ := required_eq_some h₅
  obtain ⟨v, rfl, hl⟩ := required_eq_some h₆
  refine ⟨v, l, rfl, hl, fun inText' hl' => ?_⟩
  exact ⟨a₀, _, h₀, a₁, _, h₁, a₂, _, h₂, a₃, _, h₃, a₄, _, h₄, a₅, _, h₅, l, f₇,
    by rw [required_cons, hl', Option.map_some], hrest⟩

/-- A text with the paths by name reads as the value of its document does. -/
theorem TssrunJobSnapshot.reader_of_filesByName {U : TextFormat Nat} {doc : Json}
    {s : TssrunJobSnapshot} (hread : reader U true doc = some s)
    (hname : filesByName doc = true) : reader U false doc = some s := by
  obtain ⟨fs, hfs, hbody⟩ := Option.bind_eq_some_iff.mp hread
  obtain ⟨p, hp, rfl⟩ := Option.map_eq_some_iff.mp hbody
  obtain ⟨v, l, hv, hl, hother⟩ := body_eq_some hp
  have hbyName : LogLocations.byName v = true := by
    simpa only [filesByName, hfs, Option.bind_some, hv] using hname
  have hp' := hother false (by rw [LogLocations.reader_of_byName hbyName, hl])
  rw [reader, Reader.record, hfs, Option.bind_some, hp', Option.map_some]

/-- A value does not read as a snapshot if its text gives the paths by place. -/
theorem TssrunJobSnapshot.reader_of_not_filesByName {U : TextFormat Nat} {doc v : Json}
    (hname : filesByName doc = false) (hv : doc.value = some v) : reader U false v = none := by
  cases hread : reader U false v with
  | none => rfl
  | some s =>
    obtain ⟨fs', hfs', hbody⟩ := Option.bind_eq_some_iff.mp hread
    obtain ⟨p, hp, rfl⟩ := Option.map_eq_some_iff.mp hbody
    obtain ⟨w, l, hw, hl, _⟩ := body_eq_some hp
    unfold filesByName at hname
    split at hname
    · rename_i x hx
      obtain ⟨fs, hfs, hsix⟩ := Option.bind_eq_some_iff.mp hx
      obtain ⟨fs'', hfs'', hall⟩ := fields_value hfs hv
      rw [hfs', Option.some.injEq] at hfs''
      subst hfs''
      rw [LogLocations.reader_of_not_byName hname (value_of_sameField hall hsix hw)] at hl
      cases hl
    · cases hname

end Tssrun

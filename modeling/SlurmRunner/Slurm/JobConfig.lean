/-
# The job configuration

`SlurmJobConfig` is the `[slurm]` table of a configuration, with the derived `Serialize` and
`Deserialize` of its fields.  Members of other names are refused, and the fields that hold
specifications are read by their parsers.

A configuration is read back from its text exactly if its specifications are well formed, and
whatever text a configuration was read from, it is (`job_config_round_trip`): so a configuration
can be read, written and read again as often as one likes.
-/
import SlurmRunner.Slurm.Printed
import SlurmRunner.StateStore.FileSystem

namespace Slurm

open Text Serde StateStore

/-! ## 1. The configuration

The derived serialisation of the fields, and of the types that are written by their own
`Display`. -/

/-- `Serialize`: the printed text. -/
def JobTimeLimit.serialize (t : JobTimeLimit) : Json := .str t.toStr

/-- `Deserialize`: a text is parsed. -/
def JobTimeLimit.deserialize : Reader JobTimeLimit :=
  fun doc => doc.asStr.bind fun s => (fromStr s).toOption

/-- `Serialize`: the printed text. -/
def SlurmDependency.serialize (d : SlurmDependency) : Json := .str d.toStr

/-- `Deserialize`: a text is parsed. -/
def SlurmDependency.deserialize : Reader SlurmDependency :=
  fun doc => doc.asStr.bind fun s => (fromStr s).toOption

/-- The derived `Serialize`: the name of the variant. -/
def MailType.serialize (m : MailType) : Json := .str m.asSlurmStr

/-- The derived `Deserialize`: the name of the variant, alone or with no content. -/
def MailType.deserialize : Reader MailType
  | .str s => (tryFrom s).toOption
  | .obj [(name, .null)] => (tryFrom name).toOption
  | _ => none

/-- The derived `Serialize` of the list. -/
def MailTypeInput.serialize (types : MailTypeInput) : Json := .arr (types.map MailType.serialize)

/-- `i32` as serde reads it. -/
def readInt32 : Reader Int32 := fun v => (Reader.i32 v).map Int32.ofInt

structure SlurmJobConfig where
  partition : Str
  timeLimit : Option JobTimeLimit
  logStdout : Option Str
  logStderr : Option Str
  comment : Option Str
  jobName : Option Str
  arraySpec : Option SlurmArraySpec
  dependency : Option SlurmDependency
  mailUser : Option Str
  mailTypes : Option MailTypeInput
  resourceSpec : Option ResourceSpec
  nice : Option Int32
deriving DecidableEq

namespace SlurmJobConfig

def names : List Str :=
  ["partition", "time_limit", "log_stdout", "log_stderr", "comment", "job_name", "array_spec",
    "dependency", "mail_user", "mail_types", "resource_spec", "nice"]

/-- No name is given twice. -/
theorem names_nodup : names.Nodup := by decide +kernel

def values (c : SlurmJobConfig) : List Json :=
  [.str c.partition, writeOption JobTimeLimit.serialize c.timeLimit, writeOption .str c.logStdout,
    writeOption .str c.logStderr, writeOption .str c.comment, writeOption .str c.jobName,
    writeOption SlurmArraySpec.serialize c.arraySpec,
    writeOption SlurmDependency.serialize c.dependency, writeOption .str c.mailUser,
    writeOption MailTypeInput.serialize c.mailTypes,
    writeOption ResourceSpec.serialize c.resourceSpec, writeOption (fun n => .num n.toInt) c.nice]

/-- The derived `Serialize`. -/
def toValue (c : SlurmJobConfig) : Json := writeRecord names c.values

def body : FieldsReader SlurmJobConfig := do
  let partition ← required Reader.string
  let timeLimit ← optionalField JobTimeLimit.deserialize
  let logStdout ← optionalField Reader.string
  let logStderr ← optionalField Reader.string
  let comment ← optionalField Reader.string
  let jobName ← optionalField Reader.string
  let arraySpec ← optionalField SlurmArraySpec.deserialize
  let dependency ← optionalField SlurmDependency.deserialize
  let mailUser ← optionalField Reader.string
  let mailTypes ← optionalField MailType.deserialize.list
  let resourceSpec ← optionalField ResourceSpec.deserialize
  let nice ← optionalField readInt32
  return ⟨partition, timeLimit, logStdout, logStderr, comment, jobName, arraySpec, dependency,
    mailUser, mailTypes, resourceSpec, nice⟩

/-- The values of the fields.  An array may end after `dependency`, the last field that has no
`#[serde(default)]`. -/
def fieldValues : Reader (List (Option Json))
  | .arr elems =>
    if 8 ≤ elems.length ∧ elems.length ≤ 12 then
      some (elems.map some ++ List.replicate (12 - elems.length) none)
    else none
  | doc => fields names doc

/-- The derived `Deserialize`, which knows no other members. -/
def reader : Reader SlurmJobConfig :=
  Reader.denyUnknown names fun doc => (fieldValues doc).bind fun fs => (body fs).map Prod.fst

variable {Bytes : Type} (T : JsonText Bytes)

/-- `serde_json::to_string`. -/
def toText (c : SlurmJobConfig) : Bytes := T.print c.toValue

/-- `serde_json::from_str`. -/
def fromText (text : Bytes) : Option SlurmJobConfig := (T.parse text).bind reader

/-- The specifications in it can be parsed from their texts. -/
structure WellFormed (c : SlurmJobConfig) : Prop where
  arraySpec : ∀ spec ∈ c.arraySpec, spec.WellFormed
  dependency : ∀ d ∈ c.dependency, d.WellFormed
  resourceSpec : ∀ spec ∈ c.resourceSpec, spec ≠ ResourceSpec.unspecified

end SlurmJobConfig

/-! ## 2. The fields

Each field is read back from what it is written as, under a condition where its parser asks for
one. -/

/-- A time limit is printed as hours, minutes and seconds, which are read as the same number. -/
theorem JobTimeLimit.deserialize_serialize (t : JobTimeLimit) :
    deserialize t.serialize = some t :=
  congrArg Except.toOption (fromStr_toStr t)

/-- A parser that accepts returns its value. -/
theorem toOption_eq_some {ε α : Type} {r : Except ε α} {a : α} :
    r.toOption = some a ↔ r = .ok a := by
  cases r <;> simp [Except.toOption]

/-- What is read from a document was parsed from a text. -/
theorem exists_parsed {ε α : Type} {parse : Str → Except ε α} {doc : Json} {a : α}
    (h : (doc.asStr.bind fun s => (parse s).toOption) = some a) : ∃ s, parse s = .ok a := by
  obtain ⟨s, -, hs⟩ := Option.bind_eq_some_iff.mp h
  exact ⟨s, toOption_eq_some.mp hs⟩

/-- A specification of an array is read back exactly if it is well formed. -/
theorem SlurmArraySpec.deserialize_serialize_iff (spec : SlurmArraySpec) :
    deserialize spec.serialize = some spec ↔ spec.WellFormed := by
  constructor
  · intro h
    exact wellFormed_of_fromStr (toOption_eq_some.mp h)
  · intro h
    exact toOption_eq_some.mpr h.fromStr_toStr

/-- And so is a dependency. -/
theorem SlurmDependency.deserialize_serialize_iff (d : SlurmDependency) :
    deserialize d.serialize = some d ↔ d.WellFormed := by
  constructor
  · intro h
    exact (fromStr_eq_ok.mp (toOption_eq_some.mp h)).2
  · intro h
    refine toOption_eq_some.mpr (fromStr_eq_ok.mpr ⟨?_, h⟩)
    exact d.spells_toStr.imp fun _ _ _ => Digits.signed

/-- A parsed request asks for something. -/
theorem ResourceSpec.ne_unspecified_of_fromStr {s : Str} {spec : ResourceSpec}
    (h : fromStr s = .ok spec) : spec ≠ unspecified := by
  obtain ⟨-, -, -, -, hback⟩ := canonical_of_fromStr h
  exact (deserialize_serialize_iff spec).mp (toOption_eq_some.mpr hback)

/-- The mail types are a list of names. -/
theorem MailTypeInput.list_serialize (types : MailTypeInput) :
    MailType.deserialize.list (serialize types) = some types := by
  rw [serialize, Reader.list, mapM_eq_some, List.forall₂_map_left_iff]
  refine List.forall₂_same.mpr fun m _ => ?_
  exact toOption_eq_some.mpr m.tryFrom_asSlurmStr

/-- A `nice` value is within `i32`. -/
theorem readInt32_num (n : Int32) : readInt32 (.num n.toInt) = some n := by
  have hrange : -2 ^ 31 ≤ n.toInt ∧ n.toInt < 2 ^ 31 := ⟨n.le_toInt, n.toInt_lt⟩
  rw [readInt32, Reader.i32, int_num hrange, Option.map_some, Int32.ofInt_toInt]

namespace SlurmJobConfig

/-! ## 3. The round trip

Field by field, and then through the text of the document. -/

/-- The fields are found under their names. -/
theorem fieldValues_toValue (c : SlurmJobConfig) :
    fieldValues c.toValue = some (c.values.map some) := by
  have h : fields names (.obj (names.zip c.values ++ [])) = some (c.values.map some) :=
    fields_writeRecord names_nodup rfl (by simp)
  rwa [List.append_nil] at h

/-- Every field but the three specifications is read back as it was. -/
theorem body_values (c : SlurmJobConfig) : body (c.values.map some) =
    (SlurmArraySpec.deserialize.optional (writeOption SlurmArraySpec.serialize c.arraySpec)).bind
      fun arraySpec =>
    (SlurmDependency.deserialize.optional (writeOption SlurmDependency.serialize c.dependency)).bind
      fun dependency =>
    (ResourceSpec.deserialize.optional (writeOption ResourceSpec.serialize c.resourceSpec)).map
      fun resourceSpec => ({ c with arraySpec, dependency, resourceSpec }, []) := by
  have htime : JobTimeLimit.deserialize.optional
      (writeOption JobTimeLimit.serialize c.timeLimit) = some c.timeLimit :=
    optional_writeOption (fun t _ => t.deserialize_serialize) fun _ _ => nofun
  have hmail : MailType.deserialize.list.optional
      (writeOption MailTypeInput.serialize c.mailTypes) = some c.mailTypes :=
    optional_writeOption (fun types _ => MailTypeInput.list_serialize types) fun _ _ => nofun
  have hnice : readInt32.optional (writeOption (fun n => .num (Int32.toInt n)) c.nice) =
      some c.nice :=
    optional_writeOption (fun n _ => readInt32_num n) fun _ _ => nofun
  cases harray : SlurmArraySpec.deserialize.optional
      (writeOption SlurmArraySpec.serialize c.arraySpec) with
  | none => simp [values, body, htime, optional_str, harray]
  | some arraySpec =>
    cases hdependency : SlurmDependency.deserialize.optional
        (writeOption SlurmDependency.serialize c.dependency) with
    | none => simp [values, body, htime, optional_str, harray, hdependency]
    | some dependency =>
      cases hresource : ResourceSpec.deserialize.optional
          (writeOption ResourceSpec.serialize c.resourceSpec) with
      | none => simp [values, body, htime, optional_str, harray, hdependency, hmail, hresource]
      | some resourceSpec =>
        simp [values, body, htime, optional_str, harray, hdependency, hmail, hresource, hnice]

/-- **The fields are read back exactly if their specifications can be.** -/
theorem reader_toValue_iff (c : SlurmJobConfig) : reader c.toValue = some c ↔ c.WellFormed := by
  have hdeny : reader c.toValue =
      (fieldValues c.toValue).bind fun fs => (body fs).map Prod.fst :=
    denyUnknown_writeRecord _ _ _
  have harray := optional_writeOption_iff (r := SlurmArraySpec.deserialize)
    (w := SlurmArraySpec.serialize) (o := c.arraySpec) fun _ => nofun
  have hdependency := optional_writeOption_iff (r := SlurmDependency.deserialize)
    (w := SlurmDependency.serialize) (o := c.dependency) fun _ => nofun
  have hresource := optional_writeOption_iff (r := ResourceSpec.deserialize)
    (w := ResourceSpec.serialize) (o := c.resourceSpec) fun _ => nofun
  simp only [SlurmArraySpec.deserialize_serialize_iff] at harray
  simp only [SlurmDependency.deserialize_serialize_iff] at hdependency
  simp only [ResourceSpec.deserialize_serialize_iff] at hresource
  rw [hdeny, fieldValues_toValue, Option.bind_some, body_values]
  simp only [Option.map_eq_some_iff, Option.bind_eq_some_iff]
  constructor
  · rintro ⟨p, ⟨arraySpec, hspec, dependency, hd, resourceSpec, hr, rfl⟩, hc⟩
    have ha : arraySpec = c.arraySpec := congrArg SlurmJobConfig.arraySpec hc
    have hd' : dependency = c.dependency := congrArg SlurmJobConfig.dependency hc
    have hr' : resourceSpec = c.resourceSpec := congrArg SlurmJobConfig.resourceSpec hc
    subst ha hd' hr'
    exact ⟨harray.mp hspec, hdependency.mp hd, hresource.mp hr⟩
  · intro h
    exact ⟨(c, []), ⟨_, harray.mpr h.arraySpec, _, hdependency.mpr h.dependency, _,
      hresource.mpr h.resourceSpec, rfl⟩, rfl⟩

/-- **What was read is well formed.** -/
theorem wellFormed_of_reader {doc : Json} {c : SlurmJobConfig} (h : reader doc = some c) :
    c.WellFormed := by
  have hread : ∃ fs, (body fs).map Prod.fst = some c := by
    unfold reader Reader.denyUnknown at h
    split at h
    · split at h
      · obtain ⟨fs, -, hbody⟩ := Option.bind_eq_some_iff.mp h
        exact ⟨fs, hbody⟩
      · cases h
    · obtain ⟨fs, -, hbody⟩ := Option.bind_eq_some_iff.mp h
      exact ⟨fs, hbody⟩
  obtain ⟨fs, hbody⟩ := hread
  obtain ⟨⟨c', rest⟩, hfields, rfl⟩ := Option.map_eq_some_iff.mp hbody
  simp only [body, bind_fields_eq_some] at hfields
  obtain ⟨_, _, -, _, _, -, _, _, -, _, _, -, _, _, -, _, _, -, arraySpec, _, harray, dependency, _,
    hdependency, _, _, -, _, _, -, resourceSpec, _, hresource, _, _, -, hpure⟩ := hfields
  cases hpure
  constructor
  · intro spec hspec
    obtain ⟨v, hv⟩ := exists_of_optionalField harray spec hspec
    obtain ⟨s, hs⟩ := exists_parsed hv
    exact SlurmArraySpec.wellFormed_of_fromStr hs
  · intro d hd
    obtain ⟨v, hv⟩ := exists_of_optionalField hdependency d hd
    obtain ⟨s, hs⟩ := exists_parsed hv
    exact (SlurmDependency.fromStr_eq_ok.mp hs).2
  · intro spec hspec
    obtain ⟨v, hv⟩ := exists_of_optionalField hresource spec hspec
    obtain ⟨s, hs⟩ := exists_parsed hv
    exact ResourceSpec.ne_unspecified_of_fromStr hs

/-- The document is its own value. -/
theorem toValue_isPlain (c : SlurmJobConfig) : c.toValue.isPlain = true := by
  have htime : (writeOption JobTimeLimit.serialize c.timeLimit).isPlain = true :=
    writeOption_isPlain fun _ _ => rfl
  have harray : (writeOption SlurmArraySpec.serialize c.arraySpec).isPlain = true :=
    writeOption_isPlain fun _ _ => rfl
  have hdependency : (writeOption SlurmDependency.serialize c.dependency).isPlain = true :=
    writeOption_isPlain fun _ _ => rfl
  have hresource : (writeOption ResourceSpec.serialize c.resourceSpec).isPlain = true :=
    writeOption_isPlain fun _ _ => rfl
  have hmail : (writeOption MailTypeInput.serialize c.mailTypes).isPlain = true := by
    refine writeOption_isPlain fun types _ => ?_
    rw [MailTypeInput.serialize, Json.isPlain, Json.allPlain_iff]
    intro v hv
    obtain ⟨m, -, rfl⟩ := List.mem_map.mp hv
    rfl
  have hnice : (writeOption (fun n => Json.num (Int32.toInt n)) c.nice).isPlain = true := by
    refine writeOption_isPlain fun n _ => ?_
    have hlow := n.le_toInt
    have hhigh := n.toInt_lt
    rw [Json.isPlain, decide_eq_true_eq]
    omega
  refine writeRecord_isPlain names_nodup rfl ?_
  simp [values, htime, harray, hdependency, hresource, hmail, hnice, optionalStr_isPlain]

/-- **A configuration reads back from its text exactly if its specifications can be parsed**, and
they can be in every configuration that was read from a text. -/
theorem job_config_round_trip {Bytes : Type} (T : JsonText Bytes) (c : SlurmJobConfig) :
    (fromText T (c.toText T) = some c ↔ c.WellFormed) ∧
      ∀ text, fromText T text = some c → c.WellFormed := by
  constructor
  · rw [fromText, toText, T.parse_print _ c.toValue_isPlain, Option.bind_some,
      reader_toValue_iff]
  · intro text h
    obtain ⟨doc, -, hdoc⟩ := Option.bind_eq_some_iff.mp h
    exact wellFormed_of_reader hdoc

/-- A table with members out of order, and without most of them. -/
def arrayDocument : Json :=
  .obj [("array_spec", .str "0-15:4%2"), ("partition", .str "gr10641a"), ("comment", .null),
    ("dependency", .str "after:200+5"), ("mail_types", .arr [.str "END", .obj [("FAIL", .null)]]),
    ("resource_spec", .str "c=8:p=4"), ("nice", .num (-5))]

/-- The configuration in it. -/
def arrayConfig : SlurmJobConfig where
  partition := "gr10641a"
  timeLimit := none
  logStdout := none
  logStderr := none
  comment := none
  jobName := none
  arraySpec := some ⟨[.stepped 0 15 4], some 2⟩
  dependency := some ⟨[⟨.after, [⟨200, some 5⟩]⟩], .and⟩
  mailUser := none
  mailTypes := some [.end, .fail]
  resourceSpec := some (.cpu ⟨some ⟨4, by decide⟩, none, some ⟨8, by decide⟩, none⟩)
  nice := some (-5)

/-- A configuration with the specification of an array. -/
theorem job_config_round_trip_array :
    fromText JsonText.documents (arrayConfig.toText JsonText.documents) = some arrayConfig := by
  have hread : fromText JsonText.documents arrayDocument = some arrayConfig := by decide +kernel
  have hwf := (job_config_round_trip JsonText.documents arrayConfig).2 arrayDocument hread
  exact (job_config_round_trip JsonText.documents arrayConfig).1.mpr hwf

end SlurmJobConfig

end Slurm

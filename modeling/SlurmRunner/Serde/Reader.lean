/-
# Readers and writers of records

The readers are those that `#[derive(Deserialize)]` generates: a record is read from an object by
the names of its fields, or from an array by their places, and a field that is given twice is
refused.  Unknown members are skipped, and an optional field that is missing is `none`.

Two facts are proved of them: what the writers write is read back, and a document that reads as
something has a value that reads as the same thing (`Reader.Stable`).
-/
import SlurmRunner.Serde.Json

namespace Serde

open Text

variable {α β : Type}

/-! ## 1. Readers

One reader for each type of the fields.  A number is refused when it does not fit into its type. -/

/-- `Deserialize::deserialize` from a document; `none` stands for any error. -/
abbrev Reader (α : Type) := Json → Option α

namespace Reader

def string : Reader Str := Json.asStr

def bool : Reader Bool
  | .bool b => some b
  | _ => none

/-- An unsigned type with values below `high`. -/
def nat (high : Nat) : Reader Nat
  | .num (.ofNat n) => if n < high then some n else none
  | _ => none

/-- A signed type with values from `low` up to below `high`. -/
def int (low high : Int) : Reader Int
  | .num n => if low ≤ n ∧ n < high then some n else none
  | _ => none

def u32 : Reader UInt32 := fun v => (nat (2 ^ 32) v).map UInt32.ofNat

def u64 : Reader UInt64 := fun v => (nat (2 ^ 64) v).map UInt64.ofNat

def i32 : Reader Int := int (-2 ^ 31) (2 ^ 31)

def i64 : Reader Int := int (-2 ^ 63) (2 ^ 63)

/-- `Option<T>`. -/
def optional (r : Reader α) : Reader (Option α)
  | .null => some none
  | v => (r v).map some

/-- `Vec<T>`. -/
def list (r : Reader α) : Reader (List α)
  | .arr elems => elems.mapM r
  | _ => none

/-- `HashMap<String, T>`, by its entries; the last one of a key counts. -/
def map (r : Reader α) : Reader (List (Str × α))
  | .obj members => (members.mapM fun m => (r m.2).map fun a => (m.1, a)).map lastMembers
  | _ => none

end Reader

/-! ## 2. Records

A record is read in two steps: its fields are looked up, and then the reader of each field is given
what was found, in the order of the names. -/

/-- The value of a field in an object: it may be missing, but it may not be given twice. -/
def field (members : List (Str × Json)) (name : Str) : Option (Option Json) :=
  match members.filter (·.1 = name) with
  | [] => some none
  | [m] => some (some m.2)
  | _ => none

/-- The values of the fields of a record. -/
def fields (names : List Str) : Reader (List (Option Json))
  | .obj members => names.mapM (field members)
  | .arr elems => if elems.length = names.length then some (elems.map some) else none
  | _ => none

/-- A reader of the fields of a record, one after the other. -/
abbrev FieldsReader (α : Type) := StateT (List (Option Json)) Option α

/-- The first reader takes its fields, and the second one takes what is left. -/
@[simp] theorem bind_fields (body : FieldsReader α) (k : α → FieldsReader β)
    (fs : List (Option Json)) :
    (body >>= k) fs = match body fs with | some p => k p.1 p.2 | none => none := by
  change (body fs).bind _ = _
  cases body fs <;> rfl

/-- Both readers must succeed. -/
theorem bind_fields_eq_some {body : FieldsReader α} {k : α → FieldsReader β}
    {fs : List (Option Json)} {q : β × List (Option Json)} :
    (body >>= k) fs = some q ↔ ∃ a rest, body fs = some (a, rest) ∧ k a rest = some q := by
  change (body fs).bind _ = some q ↔ _
  simp only [Option.bind_eq_some_iff, Prod.exists]

@[simp] theorem pure_fields (a : α) (fs : List (Option Json)) :
    (pure a : FieldsReader α) fs = some (a, fs) := rfl

@[simp] theorem map_fields (f : α → β) (body : FieldsReader α) (fs : List (Option Json)) :
    (f <$> body) fs = (body fs).map fun p => (f p.1, p.2) := by
  change ((body fs).bind fun p => some (f p.1, p.2)) = _
  cases body fs <;> rfl

/-- A field that must be there. -/
def required (r : Reader α) : FieldsReader α := fun fs =>
  match fs with
  | some v :: rest => (r v).map fun a => (a, rest)
  | _ => none

/-- A field of an optional type. -/
def optionalField (r : Reader α) : FieldsReader (Option α) := fun fs =>
  match fs with
  | some v :: rest => (r.optional v).map fun a => (a, rest)
  | none :: rest => some (none, rest)
  | [] => none

namespace Reader

/-- A record with these fields. -/
def record (names : List Str) (body : FieldsReader α) : Reader α := fun v =>
  (fields names v).bind fun fs => (body fs).map Prod.fst

/-- `#[serde(deny_unknown_fields)]`. -/
def denyUnknown (names : List Str) (r : Reader α) : Reader α
  | .obj members => if members.all fun m => names.contains m.1 then r (.obj members) else none
  | v => r v

end Reader

/-! ## 3. Writers

A record is written as an object with the fields in their order. -/

/-- A record as an object. -/
def writeRecord (names : List Str) (values : List Json) : Json := .obj (names.zip values)

/-- `Option<T>`. -/
def writeOption (w : α → Json) : Option α → Json
  | none => .null
  | some a => w a

/-- `Vec<String>`. -/
def writeStrings (ss : List Str) : Json := .arr (ss.map .str)

/-- `HashMap<String, String>`. -/
def writeMap (entries : List (Str × Str)) : Json := .obj (entries.map fun e => (e.1, .str e.2))

/-- A type that is written as a string. -/
structure TextFormat (α : Type) where
  write : α → Str
  read : Str → Option α
  read_write : ∀ a, read (write a) = some a

namespace TextFormat

variable (F : TextFormat α)

def reader : Reader α := fun v => v.asStr.bind F.read

def writer (a : α) : Json := .str (F.write a)

/-- Two values with the same text are the same. -/
theorem write_injective : Function.Injective F.write := by
  intro a b h
  have ha := F.read_write a
  rw [h, F.read_write b] at ha
  exact (Option.some.inj ha).symm

end TextFormat

/-! ## 4. What is written is plain

A record writes each of its names once, so it is enough that the fields are plain. -/

/-- What is written of an option is plain if its value is. -/
theorem writeOption_isPlain {w : α → Json} {o : Option α} (h : ∀ a ∈ o, (w a).isPlain = true) :
    (writeOption w o).isPlain = true := by
  cases o with
  | none => rfl
  | some a => exact h a rfl

/-- A number is plain if it fits into 64 bits. -/
theorem num_isPlain {n : Nat} (h : n < 2 ^ 64) : (Json.num n).isPlain = true := by
  rw [Json.isPlain, decide_eq_true_eq]
  omega

theorem optionalStr_isPlain (o : Option Str) : (writeOption Json.str o).isPlain = true :=
  writeOption_isPlain fun _ _ => rfl

theorem writeStrings_isPlain (ss : List Str) : (writeStrings ss).isPlain = true := by
  rw [writeStrings, Json.isPlain, Json.allPlain_iff]
  intro v hv
  obtain ⟨s, _, rfl⟩ := List.mem_map.mp hv
  rfl

/-- A map is plain as it has every key once. -/
theorem writeMap_isPlain {entries : List (Str × Str)} (h : (entries.map Prod.fst).Nodup) :
    (writeMap entries).isPlain = true := by
  have hnames : (entries.map fun e => (e.1, Json.str e.2)).map Prod.fst = entries.map Prod.fst := by
    rw [List.map_map]
    rfl
  rw [writeMap, Json.isPlain, hnames, decide_eq_true h, Bool.true_and, Json.membersPlain_iff]
  intro m hm
  obtain ⟨e, _, rfl⟩ := List.mem_map.mp hm
  rfl

/-- A record of plain values, with different names. -/
theorem writeRecord_isPlain {names : List Str} {values : List Json} (hnames : names.Nodup)
    (hlen : names.length = values.length) (hvalues : ∀ v ∈ values, v.isPlain = true) :
    (writeRecord names values).isPlain = true := by
  have hfst : (names.zip values).map Prod.fst = names := List.map_fst_zip (Nat.le_of_eq hlen)
  rw [writeRecord, Json.isPlain, hfst, decide_eq_true hnames, Bool.true_and,
    Json.membersPlain_iff]
  intro m hm
  exact hvalues m.2 (List.of_mem_zip hm).2

/-! ## 5. What was written is read back

One lemma for each writer and its reader.  Those about fields are for `simp`, which reads a whole
record field by field. -/

@[simp] theorem string_str (s : Str) : Reader.string (.str s) = some s := rfl

@[simp] theorem bool_bool (b : Bool) : Reader.bool (.bool b) = some b := rfl

/-- A number is read back if it fits into its type. -/
theorem nat_num {high n : Nat} (h : n < high) : Reader.nat high (.num n) = some n := if_pos h

@[simp] theorem u32_num (n : UInt32) : Reader.u32 (.num n.toNat) = some n := by
  rw [Reader.u32, nat_num n.toNat_lt, Option.map_some, UInt32.ofNat_toNat]

@[simp] theorem u64_num (n : UInt64) : Reader.u64 (.num n.toNat) = some n := by
  rw [Reader.u64, nat_num n.toNat_lt, Option.map_some, UInt64.ofNat_toNat]

/-- A signed number is read back if it fits into its type. -/
theorem int_num {low high n : Int} (h : low ≤ n ∧ n < high) :
    Reader.int low high (.num n) = some n := if_pos h

/-- A value is read back from its text. -/
@[simp] theorem reader_writer (F : TextFormat α) (a : α) :
    F.reader (F.writer a) = some a := F.read_write a

/-- A value other than `null` is that of `some`. -/
theorem optional_of_ne_null {v : Json} (r : Reader α) (h : v ≠ .null) :
    r.optional v = (r v).map some := by
  unfold Reader.optional
  split
  · exact absurd rfl h
  · rfl

/-- An optional value is read back if no value is written as `null`. -/
theorem optional_writeOption {r : Reader α} {w : α → Json} {o : Option α}
    (hread : ∀ a ∈ o, r (w a) = some a) (hnull : ∀ a ∈ o, w a ≠ .null) :
    r.optional (writeOption w o) = some o := by
  cases o with
  | none => rfl
  | some a =>
    rw [writeOption, optional_of_ne_null r (hnull a rfl), hread a rfl, Option.map_some]

/-- An optional field is read back exactly if its value is. -/
theorem optional_writeOption_iff {r : Reader α} {w : α → Json} {o : Option α}
    (hnull : ∀ a, w a ≠ .null) :
    r.optional (writeOption w o) = some o ↔ ∀ a ∈ o, r (w a) = some a := by
  cases o with
  | none => simp [writeOption, Reader.optional]
  | some a => simp [writeOption, optional_of_ne_null r (hnull a)]

theorem optional_str (o : Option Str) : Reader.string.optional (writeOption .str o) = some o :=
  optional_writeOption (fun _ _ => rfl) fun _ _ => nofun

@[simp] theorem list_writeStrings (ss : List Str) :
    Reader.string.list (writeStrings ss) = some ss := by
  rw [writeStrings, Reader.list, mapM_eq_some, List.forall₂_map_left_iff]
  exact List.forall₂_same.mpr fun s _ => rfl

/-- A map is read back with its entries in their order. -/
theorem map_writeMap {entries : List (Str × Str)} (h : (entries.map Prod.fst).Nodup) :
    Reader.string.map (writeMap entries) = some entries := by
  have hread : (entries.map fun e => (e.1, Json.str e.2)).mapM
      (fun m => (Reader.string m.2).map fun a => (m.1, a)) = some entries := by
    rw [mapM_eq_some, List.forall₂_map_left_iff]
    exact List.forall₂_same.mpr fun e _ => rfl
  rw [writeMap, Reader.map, hread, Option.map_some, lastMembers_of_nodup h]

/-- A name that is there once has its value. -/
theorem field_of_filter {members : List (Str × Json)} {name : Str} {m : Str × Json}
    (h : members.filter (·.1 = name) = [m]) : field members name = some (some m.2) := by
  rw [field, h]

/-- A name that is not there has no entries. -/
theorem filter_eq_nil {members : List (Str × Json)} {name : Str}
    (h : name ∉ members.map Prod.fst) : members.filter (·.1 = name) = [] :=
  List.filter_eq_nil_iff.mpr fun m hm => by
    have hne : m.1 ≠ name := fun he => h (he ▸ List.mem_map_of_mem hm)
    simpa using hne

/-- The fields of a record that was written, also with other members behind them. -/
theorem fields_writeRecord {names : List Str} {values : List Json} {extra : List (Str × Json)}
    (hnames : names.Nodup) (hlen : names.length = values.length)
    (hextra : ∀ m ∈ extra, m.1 ∉ names) :
    fields names (.obj (names.zip values ++ extra)) = some (values.map some) := by
  -- every name picks its own member
  have hfield : ∀ (pre : List (Str × Json)) (ns : List Str) (vs : List Json),
      ns.length = vs.length → (pre.map Prod.fst ++ ns).Nodup → (∀ m ∈ extra, m.1 ∉ ns) →
      List.Forall₂ (fun n f => field (pre ++ (ns.zip vs ++ extra)) n = some f) ns
        (vs.map some) := by
    intro pre ns
    induction ns generalizing pre with
    | nil =>
      intro vs hlen _ _
      rw [List.eq_nil_of_length_eq_zero hlen.symm]
      exact .nil
    | cons n ns ih =>
      intro vs hlen hnd hextra
      obtain _ | ⟨v, vs⟩ := vs
      · simp at hlen
      have hlen' : ns.length = vs.length := by simpa using hlen
      have hpre : n ∉ pre.map Prod.fst := fun h =>
        (List.nodup_append.mp hnd).2.2 n h n List.mem_cons_self rfl
      have hns : n ∉ ns := (List.nodup_cons.mp (List.nodup_append.mp hnd).2.1).1
      have hrest : n ∉ (ns.zip vs ++ extra).map Prod.fst := by
        rw [List.map_append, List.map_fst_zip (Nat.le_of_eq hlen'), List.mem_append]
        rintro (h | h)
        · exact hns h
        · obtain ⟨m, hm, he⟩ := List.mem_map.mp h
          exact hextra m hm (he ▸ List.mem_cons_self)
      refine .cons ?_ ?_
      · refine field_of_filter (m := (n, v)) ?_
        rw [List.filter_append, filter_eq_nil hpre, List.zip_cons_cons, List.cons_append,
          List.filter_cons, if_pos (by simp), filter_eq_nil hrest, List.nil_append]
      · have hmove : pre ++ ((n :: ns).zip (v :: vs) ++ extra)
            = (pre ++ [(n, v)]) ++ (ns.zip vs ++ extra) := by simp
        rw [hmove]
        refine ih (pre ++ [(n, v)]) vs hlen' ?_ fun m hm h =>
          hextra m hm (List.mem_cons_of_mem n h)
        simpa using hnd
  exact mapM_eq_some.mpr (hfield [] names values hlen hnames hextra)

@[simp] theorem required_cons (r : Reader α) (v : Json) (rest : List (Option Json)) :
    required r (some v :: rest) = (r v).map fun a => (a, rest) := rfl

@[simp] theorem optionalField_cons (r : Reader α) (v : Json) (rest : List (Option Json)) :
    optionalField r (some v :: rest) = (r.optional v).map fun a => (a, rest) := rfl

/-- A required field takes one value off the list. -/
theorem required_eq_some {r : Reader α} {fs rest : List (Option Json)} {a : α}
    (h : required r fs = some (a, rest)) : ∃ v, fs = some v :: rest ∧ r v = some a := by
  cases fs with
  | nil => cases h
  | cons f fs =>
    obtain _ | v := f
    · cases h
    obtain ⟨b, hb, he⟩ := Option.map_eq_some_iff.mp h
    cases he
    exact ⟨v, rfl, hb⟩

/-- An optional field takes one value too. -/
theorem optionalField_eq_some {r : Reader α} {fs rest : List (Option Json)} {a : Option α}
    (h : optionalField r fs = some (a, rest)) : ∃ f, fs = f :: rest := by
  cases fs with
  | nil => cases h
  | cons f fs =>
    obtain _ | v := f
    · cases h
      exact ⟨none, rfl⟩
    · obtain ⟨b, hb, he⟩ := Option.map_eq_some_iff.mp h
      cases he
      exact ⟨some v, rfl⟩

/-- The value of an optional field was read from a document. -/
theorem exists_of_optionalField {r : Reader α} {fs rest : List (Option Json)}
    {o : Option α} (h : optionalField r fs = some (o, rest)) : ∀ a ∈ o, ∃ v, r v = some a := by
  rintro a rfl
  cases fs with
  | nil => cases h
  | cons f fs =>
    cases f with
    | none => cases h
    | some v =>
      obtain ⟨o, ho, hpair⟩ := Option.map_eq_some_iff.mp h
      obtain ⟨rfl, -⟩ := Prod.mk.inj hpair
      by_cases hv : v = .null
      · subst hv
        cases ho
      · rw [optional_of_ne_null r hv] at ho
        exact ⟨v, by simpa using ho⟩

/-- A record is read back if its fields are, also with other members behind them. -/
theorem record_append {names : List Str} {values : List Json} {extra : List (Str × Json)}
    {body : FieldsReader α} {a : α} (hnames : names.Nodup) (hlen : names.length = values.length)
    (hextra : ∀ m ∈ extra, m.1 ∉ names) (hbody : body (values.map some) = some (a, [])) :
    Reader.record names body (.obj (names.zip values ++ extra)) = some a := by
  rw [Reader.record, fields_writeRecord hnames hlen hextra, Option.bind_some, hbody,
    Option.map_some]

/-- **A record is read back** if its fields are. -/
theorem record_writeRecord {names : List Str} {values : List Json} {body : FieldsReader α} {a : α}
    (hnames : names.Nodup) (hlen : names.length = values.length)
    (hbody : body (values.map some) = some (a, [])) :
    Reader.record names body (writeRecord names values) = some a := by
  have h : Reader.record names body (.obj (names.zip values ++ [])) = some a :=
    record_append hnames hlen (by simp) hbody
  rwa [List.append_nil] at h

/-- A record has no unknown members. -/
theorem denyUnknown_writeRecord (r : Reader α) (names : List Str) (values : List Json) :
    r.denyUnknown names (writeRecord names values) = r (writeRecord names values) := by
  have hall : ((names.zip values).all fun m => names.contains m.1) = true := by
    rw [List.all_eq_true]
    intro m hm
    exact List.contains_iff_mem.mpr (List.of_mem_zip hm).1
  exact if_pos hall

/-! ## 6. A document and its value

A reader that accepts a document accepts its value and reads the same from it: a record refuses a
field that is given twice, and a map keeps the last entry of a key, as a value does. -/

/-- What reads a document as something reads its value as the same thing. -/
def Reader.Stable (r : Reader α) : Prop :=
  ∀ (v v' : Json) (a : α), r v = some a → v.value = some v' → r v' = some a

/-- Two lists that are related to a third are related to one another. -/
theorem forall₂_of_common {γ : Type} {R : α → β → Prop} {S : α → γ → Prop} {T : β → γ → Prop}
    (h : ∀ a b c, R a b → S a c → T b c) {as : List α} {bs : List β} {cs : List γ}
    (hR : List.Forall₂ R as bs) (hS : List.Forall₂ S as cs) : List.Forall₂ T bs cs := by
  induction hR generalizing cs with
  | nil =>
    cases hS
    exact .nil
  | cons hab _ ih =>
    cases hS with
    | cons hac hrest => exact .cons (h _ _ _ hab hac) (ih hrest)

namespace Reader.Stable

theorem string : Stable Reader.string := by
  intro v v' s hr hv
  cases v with
  | str t =>
    rw [Json.value, Option.some.injEq] at hv
    exact hv ▸ hr
  | _ => cases hr

theorem int (low high : Int) : Stable (Reader.int low high) := by
  intro v v' n hr hv
  cases v with
  | num m =>
    rw [Json.value, Option.some.injEq] at hv
    exact hv ▸ hr
  | _ => cases hr

theorem nat (high : Nat) : Stable (Reader.nat high) := by
  intro v v' n hr hv
  cases v with
  | num m =>
    rw [Json.value, Option.some.injEq] at hv
    exact hv ▸ hr
  | _ => cases hr

theorem map_some {r : Reader α} (h : Stable r) (f : α → β) :
    Stable fun v => (r v).map f := by
  intro v v' b hr hv
  obtain ⟨a, ha, rfl⟩ := Option.map_eq_some_iff.mp hr
  exact Option.map_eq_some_iff.mpr ⟨a, h v v' a ha hv, rfl⟩

theorem u32 : Stable Reader.u32 := map_some (nat _) _

theorem u64 : Stable Reader.u64 := map_some (nat _) _

theorem i32 : Stable Reader.i32 := int _ _

theorem i64 : Stable Reader.i64 := int _ _

theorem text (F : TextFormat α) : Stable F.reader := by
  intro v v' a hr hv
  obtain ⟨s, hs, ha⟩ := Option.bind_eq_some_iff.mp hr
  exact Option.bind_eq_some_iff.mpr ⟨s, string v v' s hs hv, ha⟩

theorem optional {r : Reader α} (h : Stable r) : Stable r.optional := by
  intro v v' a hr hv
  by_cases hnull : v = .null
  · subst hnull
    rw [Json.value, Option.some.injEq] at hv
    exact hv ▸ hr
  · have hnull' : v' ≠ .null := fun he => hnull (Json.value_null (he ▸ hv))
    rw [optional_of_ne_null r hnull] at hr
    rw [optional_of_ne_null r hnull']
    exact map_some h some v v' a hr hv

theorem list {r : Reader α} (h : Stable r) : Stable r.list := by
  intro v v' as hr hv
  cases v with
  | arr elems =>
    rw [Json.value, Option.map_eq_some_iff] at hv
    obtain ⟨elems', hvs, rfl⟩ := hv
    rw [Reader.list, mapM_eq_some] at hr ⊢
    exact forall₂_of_common (fun e e' a he ha => h e e' a ha he) (Json.values_eq_some.mp hvs) hr
  | _ => cases hr

theorem map {r : Reader α} (h : Stable r) : Stable r.map := by
  intro v v' es hr hv
  cases v with
  | obj members =>
    rw [Json.value, Option.map_eq_some_iff] at hv
    obtain ⟨members', hms, rfl⟩ := hv
    rw [Reader.map, Option.map_eq_some_iff] at hr ⊢
    obtain ⟨read, hread, rfl⟩ := hr
    have hread' : SameNames (fun v e => r v = some e) members' read := by
      refine forall₂_of_common ?_ (Json.memberValues_eq_some.mp hms) (mapM_eq_some.mp hread)
      intro m m' e hm he
      obtain ⟨a, ha, rfl⟩ := Option.map_eq_some_iff.mp he
      exact ⟨hm.1.symm, h m.2 m'.2 a ha hm.2⟩
    refine ⟨lastMembers read, mapM_eq_some.mpr (hread'.lastMembers.imp ?_),
      lastMembers_of_nodup (nodup_lastMembers read)⟩
    rintro m e ⟨hname, he⟩
    rw [he, Option.map_some, hname]
  | _ => cases hr

end Reader.Stable

/-- The fields of a document and those of its value. -/
def SameField (f f' : Option Json) : Prop :=
  match f, f' with
  | none, none => True
  | some v, some v' => v.value = some v'
  | _, _ => False

/-- A field that is there has a value. -/
theorem value_of_sameField {fs fs' : List (Option Json)} (h : List.Forall₂ SameField fs fs')
    {n : Nat} {v v' : Json} (hv : fs[n]?.join = some v) (hv' : fs'[n]?.join = some v') :
    v.value = some v' := by
  induction h generalizing n with
  | nil => cases hv
  | @cons f f' _ _ hf _ ih =>
    cases n with
    | zero =>
      obtain rfl : f = some v := hv
      obtain rfl : f' = some v' := hv'
      exact hf
    | succ n => exact ih hv hv'

/-- A field that was looked up in an object is found in its value, as it is the only one of its
name. -/
theorem field_value {members members' : List (Str × Json)}
    (h : SameNames (fun v v' => v.value = some v') members members') {name : Str}
    {f : Option Json} (hf : field members name = some f) :
    ∃ f', field (lastMembers members') name = some f' ∧ SameField f f' := by
  have hfilter : SameNames (fun v v' => v.value = some v')
      (members.filter (·.1 = name)) (members'.filter (·.1 = name)) := by
    refine List.rel_filter (fun m m' hm => ?_) h
    simp [hm.1]
  unfold field at hf ⊢
  rw [filter_lastMembers]
  generalize members.filter (·.1 = name) = ms at hfilter hf
  generalize members'.filter (·.1 = name) = ms' at hfilter
  cases hfilter with
  | nil =>
    rw [Option.some.injEq] at hf
    subst hf
    exact ⟨none, rfl, trivial⟩
  | @cons m m' _ _ hm hrest =>
    cases hrest with
    | nil =>
      rw [Option.some.injEq] at hf
      subst hf
      exact ⟨some m'.2, rfl, hm.2⟩
    | cons _ _ => cases hf

/-- All the fields that were looked up are found in the value. -/
theorem fields_value {names : List Str} {v v' : Json} {fs : List (Option Json)}
    (hfs : fields names v = some fs) (hv : v.value = some v') :
    ∃ fs', fields names v' = some fs' ∧ List.Forall₂ SameField fs fs' := by
  cases v with
  | obj members =>
    rw [Json.value, Option.map_eq_some_iff] at hv
    obtain ⟨members', hms, rfl⟩ := hv
    rw [Json.memberValues_eq_some] at hms
    rw [fields, mapM_eq_some] at hfs
    simp only [fields, mapM_eq_some]
    induction hfs with
    | nil => exact ⟨[], .nil, .nil⟩
    | cons hf _ ih =>
      obtain ⟨f', hf', hsame⟩ := field_value hms hf
      obtain ⟨fs', hfs', hall⟩ := ih
      exact ⟨f' :: fs', .cons hf' hfs', .cons hsame hall⟩
  | arr elems =>
    rw [Json.value, Option.map_eq_some_iff] at hv
    obtain ⟨elems', hvs, rfl⟩ := hv
    rw [Json.values_eq_some] at hvs
    simp only [fields] at hfs ⊢
    split at hfs
    · rename_i hlen
      rw [Option.some.injEq] at hfs
      subst hfs
      refine ⟨elems'.map some, if_pos (hvs.length_eq ▸ hlen), ?_⟩
      rw [List.forall₂_map_left_iff, List.forall₂_map_right_iff]
      exact hvs
    · cases hfs
  | _ => cases hfs

/-- The same for a reader of fields. -/
def FieldsStable (body : FieldsReader α) : Prop :=
  ∀ (fs fs' : List (Option Json)) (a : α) (rest : List (Option Json)),
    body fs = some (a, rest) → List.Forall₂ SameField fs fs' →
      ∃ rest', body fs' = some (a, rest') ∧ List.Forall₂ SameField rest rest'

namespace FieldsStable

theorem pure (a : α) : FieldsStable (Pure.pure a) := by
  intro fs fs' b rest h hfs
  cases h
  exact ⟨fs', rfl, hfs⟩

theorem bind {body : FieldsReader α} {k : α → FieldsReader β} (hbody : FieldsStable body)
    (hk : ∀ a, FieldsStable (k a)) : FieldsStable (body >>= k) := by
  intro fs fs' b rest h hfs
  obtain ⟨⟨a, mid⟩, ha, hb⟩ := Option.bind_eq_some_iff.mp h
  obtain ⟨mid', ha', hmid⟩ := hbody fs fs' a mid ha hfs
  obtain ⟨rest', hb', hrest⟩ := hk a mid mid' b rest hb hmid
  exact ⟨rest', Option.bind_eq_some_iff.mpr ⟨(a, mid'), ha', hb'⟩, hrest⟩

theorem required {r : Reader α} (h : r.Stable) : FieldsStable (required r) := by
  intro fs fs' a rest hr hfs
  cases hfs with
  | nil => cases hr
  | @cons f f' fs fs' hf hfs =>
    obtain _ | v := f
    · cases hr
    obtain _ | v' := f'
    · cases hf
    obtain ⟨b, hb, he⟩ := Option.map_eq_some_iff.mp hr
    cases he
    exact ⟨fs', by rw [required_cons, h v v' a hb hf, Option.map_some], hfs⟩

theorem optionalField {r : Reader α} (h : r.Stable) : FieldsStable (optionalField r) := by
  intro fs fs' a rest hr hfs
  cases hfs with
  | nil => cases hr
  | @cons f f' fs fs' hf hfs =>
    obtain _ | v := f
    · cases hr
      obtain _ | v' := f'
      · exact ⟨fs', rfl, hfs⟩
      · cases hf
    obtain _ | v' := f'
    · cases hf
    obtain ⟨b, hb, he⟩ := Option.map_eq_some_iff.mp hr
    cases he
    exact ⟨fs', by rw [optionalField_cons, h.optional v v' a hb hf, Option.map_some], hfs⟩

end FieldsStable

/-- A record is stable if its fields are. -/
theorem Reader.Stable.record {names : List Str} {body : FieldsReader α}
    (h : FieldsStable body) : Reader.Stable (Reader.record names body) := by
  intro v v' a hr hv
  obtain ⟨fs, hfs, hbody⟩ := Option.bind_eq_some_iff.mp hr
  obtain ⟨⟨b, rest⟩, hb, rfl⟩ := Option.map_eq_some_iff.mp hbody
  obtain ⟨fs', hfs', hall⟩ := fields_value hfs hv
  obtain ⟨rest', hb', _⟩ := h fs fs' b rest hb hall
  rw [Reader.record, hfs', Option.bind_some, hb', Option.map_some]

end Serde

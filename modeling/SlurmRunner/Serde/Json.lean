/-
# JSON documents and values

A JSON document as a tree, in which an object is the list of its members.  A text may name a member
twice, and it may hold parts that a parser can skip but not read; a value in memory
(`serde_json::Value`) has neither: `value` drops all but the last member of a name.
-/
import Mathlib.Algebra.Group.Int.Defs
import Mathlib.Algebra.Group.Nat.Defs
import Mathlib.Data.List.Nodup
import SlurmRunner.Text.Split

namespace Serde

open Text

/-! ## 1. Association lists

An object is a list of members.  A map is made of it by insertions, one after another, so it has the
last entry of each name. -/

section Members

variable {α β : Type}

/-- The members after `insert`: an old entry of the name is replaced. -/
def insertMember (ms : List (Str × α)) (name : Str) (v : α) : List (Str × α) :=
  if name ∈ ms.map Prod.fst then ms.map fun m => if m.1 = name then (name, v) else m
  else ms ++ [(name, v)]

/-- The members with the last entry of each name. -/
def lastMembers (ms : List (Str × α)) : List (Str × α) :=
  ms.foldl (fun acc m => insertMember acc m.1 m.2) []

/-- A new name goes to the end. -/
theorem insertMember_of_notMem {ms : List (Str × α)} {name : Str} {v : α}
    (h : name ∉ ms.map Prod.fst) : insertMember ms name v = ms ++ [(name, v)] := if_neg h

/-- An insertion keeps the names different. -/
theorem nodup_insertMember {ms : List (Str × α)} (h : (ms.map Prod.fst).Nodup) (name : Str)
    (v : α) : ((insertMember ms name v).map Prod.fst).Nodup := by
  unfold insertMember
  split
  · have hnames : (ms.map fun m => if m.1 = name then (name, v) else m).map Prod.fst
        = ms.map Prod.fst := by
      rw [List.map_map]
      refine List.map_congr_left fun m _ => ?_
      by_cases hm : m.1 = name <;> simp [hm]
    rwa [hnames]
  · rename_i hname
    rw [List.map_append, List.map_cons, List.map_nil, ← List.concat_eq_append]
    exact h.concat hname

/-- No name is left twice. -/
theorem nodup_lastMembers (ms : List (Str × α)) : ((lastMembers ms).map Prod.fst).Nodup := by
  have hfold : ∀ (ms acc : List (Str × α)), (acc.map Prod.fst).Nodup →
      ((ms.foldl (fun acc m => insertMember acc m.1 m.2) acc).map Prod.fst).Nodup := by
    intro ms
    induction ms with
    | nil => exact fun acc h => h
    | cons m ms ih => exact fun acc h => ih _ (nodup_insertMember h m.1 m.2)
  exact hfold ms [] List.nodup_nil

/-- Members that are all different are inserted one behind another. -/
theorem foldl_insertMember {ms acc : List (Str × α)} (h : ((acc ++ ms).map Prod.fst).Nodup) :
    ms.foldl (fun acc m => insertMember acc m.1 m.2) acc = acc ++ ms := by
  induction ms generalizing acc with
  | nil => simp
  | cons m ms ih =>
    have hm : m.1 ∉ acc.map Prod.fst := by
      rw [List.map_append, List.map_cons, List.nodup_append] at h
      exact fun hmem => h.2.2 _ hmem _ List.mem_cons_self rfl
    rw [List.foldl_cons, insertMember_of_notMem hm, ih (by simpa using h)]
    simp

/-- Members that are all different stay as they are. -/
theorem lastMembers_of_nodup {ms : List (Str × α)} (h : (ms.map Prod.fst).Nodup) :
    lastMembers ms = ms := foldl_insertMember h

/-- The entries of a name after an insertion. -/
theorem filter_insertMember {ms : List (Str × α)} (h : (ms.map Prod.fst).Nodup) (name n : Str)
    (v : α) : (insertMember ms name v).filter (·.1 = n) =
      if name = n then [(name, v)] else ms.filter (·.1 = n) := by
  induction ms with
  | nil => by_cases hn : name = n <;> simp [insertMember, hn]
  | cons m ms ih =>
    rw [List.map_cons, List.nodup_cons] at h
    have ih := ih h.2
    by_cases hm : m.1 = name
    · -- the name is the first one: the others have a different one
      have hrest : ∀ m' ∈ ms, m'.1 ≠ name := fun m' hm' he =>
        h.1 (by rw [hm, ← he]; exact List.mem_map_of_mem hm')
      have hmap : (ms.map fun m' => if m'.1 = name then (name, v) else m') = ms := by
        conv_rhs => rw [← List.map_id ms]
        exact List.map_congr_left fun m' hm' => if_neg (hrest m' hm')
      rw [insertMember, if_pos (by simp [hm]), List.map_cons, if_pos hm, hmap]
      by_cases hn : name = n
      · subst hn
        have hnone : ms.filter (·.1 = name) = [] :=
          List.filter_eq_nil_iff.mpr fun m' hm' => by simpa using hrest m' hm'
        simp [hnone]
      · simp [hn, hm]
    · have hins : insertMember (m :: ms) name v = m :: insertMember ms name v := by
        simp only [insertMember, List.map_cons, List.mem_cons, Ne.symm hm, false_or, if_neg hm]
        split <;> rfl
      rw [hins, List.filter_cons, List.filter_cons, ih]
      by_cases hn : name = n
      · subst hn
        simp [hm]
      · simp [hn]

/-- What is left of a name is its last entry. -/
theorem filter_lastMembers (ms : List (Str × α)) (n : Str) :
    (lastMembers ms).filter (·.1 = n) = (ms.filter (·.1 = n)).getLast?.toList := by
  have hfold : ∀ (ms acc : List (Str × α)), (acc.map Prod.fst).Nodup →
      (ms.foldl (fun acc m => insertMember acc m.1 m.2) acc).filter (·.1 = n)
        = match (ms.filter (·.1 = n)).getLast? with
          | some m => [m]
          | none => acc.filter (·.1 = n) := by
    intro ms
    induction ms with
    | nil => exact fun acc _ => rfl
    | cons m ms ih =>
      intro acc hacc
      rw [List.foldl_cons, ih _ (nodup_insertMember hacc m.1 m.2), filter_insertMember hacc,
        List.filter_cons]
      by_cases hm : m.1 = n
      · subst hm
        simp only [decide_true, if_true]
        cases hlast : (ms.filter (·.1 = m.1)).getLast? with
        | none => simp only [List.getLast?_cons, hlast, Option.getD_none]
        | some l => simp only [List.getLast?_cons, hlast, Option.getD_some]
      · simp [hm]
  rw [lastMembers, hfold ms [] List.nodup_nil]
  cases (ms.filter (·.1 = n)).getLast? <;> rfl

/-- Two lists of members with the same names and related values. -/
abbrev SameNames (R : α → β → Prop) : List (Str × α) → List (Str × β) → Prop :=
  List.Forall₂ fun m m' => m.1 = m'.1 ∧ R m.2 m'.2

theorem SameNames.names {R : α → β → Prop} {ms : List (Str × α)} {ms' : List (Str × β)}
    (h : SameNames R ms ms') : ms.map Prod.fst = ms'.map Prod.fst := by
  induction h with
  | nil => rfl
  | cons hm _ ih => rw [List.map_cons, List.map_cons, hm.1, ih]

/-- Insertions of related values keep the lists related. -/
theorem SameNames.insertMember {R : α → β → Prop} {ms : List (Str × α)} {ms' : List (Str × β)}
    (h : SameNames R ms ms') (name : Str) {v : α} {v' : β} (hv : R v v') :
    SameNames R (insertMember ms name v) (Serde.insertMember ms' name v') := by
  unfold Serde.insertMember
  rw [h.names]
  split
  · rw [SameNames, List.forall₂_map_left_iff, List.forall₂_map_right_iff]
    refine h.imp fun m m' hm => ?_
    rw [hm.1]
    split
    · exact ⟨rfl, hv⟩
    · exact hm
  · exact List.rel_append h (.cons ⟨rfl, hv⟩ .nil)

/-- So do all the insertions together. -/
theorem SameNames.lastMembers {R : α → β → Prop} {ms : List (Str × α)} {ms' : List (Str × β)}
    (h : SameNames R ms ms') : SameNames R (lastMembers ms) (Serde.lastMembers ms') := by
  have hfold : ∀ {acc : List (Str × α)} {acc' : List (Str × β)}, SameNames R acc acc' →
      SameNames R (ms.foldl (fun acc m => Serde.insertMember acc m.1 m.2) acc)
        (ms'.foldl (fun acc m => Serde.insertMember acc m.1 m.2) acc') := by
    induction h with
    | nil => exact fun hacc => hacc
    | cons hm _ ih =>
      intro acc acc' hacc
      rw [List.foldl_cons, List.foldl_cons, ← hm.1]
      exact ih (hacc.insertMember _ hm.2)
  exact hfold .nil

end Members

/-- `mapM` on options, element by element. -/
theorem mapM_eq_some {α β : Type} {f : α → Option β} {l : List α} {l' : List β} :
    l.mapM f = some l' ↔ List.Forall₂ (fun a b => f a = some b) l l' := by
  induction l generalizing l' with
  | nil => simp [eq_comm]
  | cons a l ih =>
    rw [List.mapM_cons, List.forall₂_cons_left_iff]
    simp only [Option.bind_eq_bind, Option.bind_eq_some_iff, Option.pure_def, Option.some.injEq]
    constructor
    · rintro ⟨b, hb, bs, hbs, rfl⟩
      exact ⟨b, bs, hb, ih.mp hbs, rfl⟩
    · rintro ⟨b, bs, hb, hbs, rfl⟩
      exact ⟨b, hb, bs, ih.mpr hbs, rfl⟩

/-! ## 2. Documents

A document and its value differ in the members that are given twice, and a document that has an
unreadable part has no value at all.  A document that is plain is its own value. -/

inductive Json where
  | null
  | bool (b : Bool)
  /-- An integer that fits `u64` or `i64`. -/
  | num (n : Int)
  /-- Any other number. -/
  | float (text : Str)
  | str (s : Str)
  | arr (elems : List Json)
  | obj (members : List (Str × Json))
  /-- A part that can be skipped but not read: a number beyond `f64`, half of a surrogate pair, or
  values that are nested too deep. -/
  | unreadable

namespace Json

/-- `Value::get` with a string. -/
def get (v : Json) (name : Str) : Option Json :=
  match v with
  | .obj ms => ms.lookup name
  | _ => none

/-- `Value::as_str`. -/
def asStr : Json → Option Str
  | .str s => some s
  | _ => none

/-- `Value::as_u64`. -/
def asU64 : Json → Option Nat
  | .num (.ofNat n) => if n < 2 ^ 64 then some n else none
  | _ => none

mutual

/-- The value of a document in memory. -/
def value : Json → Option Json
  | .arr elems => (values elems).map .arr
  | .obj members => (memberValues members).map fun ms => .obj (lastMembers ms)
  | .unreadable => none
  | .null => some .null
  | .bool b => some (.bool b)
  | .num n => some (.num n)
  | .float text => some (.float text)
  | .str s => some (.str s)

def values : List Json → Option (List Json)
  | [] => some []
  | v :: vs =>
    match v.value, values vs with
    | some v', some vs' => some (v' :: vs')
    | _, _ => none

def memberValues : List (Str × Json) → Option (List (Str × Json))
  | [] => some []
  | (name, v) :: ms =>
    match v.value, memberValues ms with
    | some v', some ms' => some ((name, v') :: ms')
    | _, _ => none

end

mutual

/-- What a program writes: no number but machine integers, and no name twice in an object. -/
def isPlain : Json → Bool
  | .num n => decide (-2 ^ 63 ≤ n ∧ n < 2 ^ 64)
  | .arr elems => allPlain elems
  | .obj members => decide (members.map Prod.fst).Nodup && membersPlain members
  | .float _ => false
  | .unreadable => false
  | .null => true
  | .bool _ => true
  | .str _ => true

def allPlain : List Json → Bool
  | [] => true
  | v :: vs => v.isPlain && allPlain vs

def membersPlain : List (Str × Json) → Bool
  | [] => true
  | (_, v) :: ms => v.isPlain && membersPlain ms

end

@[simp] theorem str_isPlain (s : Str) : (Json.str s).isPlain = true := rfl

@[simp] theorem bool_isPlain (b : Bool) : (Json.bool b).isPlain = true := rfl

/-- The value of an array has the values of its elements. -/
theorem values_eq_some {vs vs' : List Json} :
    values vs = some vs' ↔ List.Forall₂ (fun v v' => v.value = some v') vs vs' := by
  induction vs generalizing vs' with
  | nil => simp [values, eq_comm]
  | cons v vs ih =>
    rw [values, List.forall₂_cons_left_iff]
    cases hv : v.value with
    | none => simp
    | some v' =>
      cases hvs : values vs with
      | none =>
        simp only [hvs, reduceCtorEq, false_iff] at ih ⊢
        rintro ⟨w, ws, _, hws, _⟩
        exact ih hws
      | some ws =>
        simp only [Option.some.injEq]
        constructor
        · rintro rfl
          exact ⟨v', ws, rfl, ih.mp hvs, rfl⟩
        · rintro ⟨w, us, rfl, hus, rfl⟩
          rw [← ih, hvs, Option.some.injEq] at hus
          rw [hus]

/-- The members of an object keep their names. -/
theorem memberValues_eq_some {ms ms' : List (Str × Json)} :
    memberValues ms = some ms' ↔ SameNames (fun v v' => v.value = some v') ms ms' := by
  induction ms generalizing ms' with
  | nil => simp [memberValues, eq_comm]
  | cons m ms ih =>
    obtain ⟨name, v⟩ := m
    rw [memberValues, SameNames, List.forall₂_cons_left_iff]
    cases hv : v.value with
    | none => simp
    | some v' =>
      cases hms : memberValues ms with
      | none =>
        simp only [hms, reduceCtorEq, false_iff] at ih ⊢
        rintro ⟨w, ws, _, hws, _⟩
        exact ih hws
      | some ws =>
        simp only [Option.some.injEq]
        constructor
        · rintro rfl
          exact ⟨(name, v'), ws, ⟨rfl, rfl⟩, ih.mp hms, rfl⟩
        · rintro ⟨⟨name', w⟩, us, ⟨rfl, rfl⟩, hus, rfl⟩
          have hws := ih.mpr hus
          rw [hms, Option.some.injEq] at hws
          rw [hws]

/-- Only `null` has the value `null`. -/
theorem value_null {v : Json} (h : v.value = some .null) : v = .null := by
  cases v <;> simp_all [value]

mutual

/-- What a program writes is its own value. -/
theorem value_of_isPlain : ∀ {v : Json}, v.isPlain = true → v.value = some v
  | .arr elems, h => by
    rw [isPlain] at h
    rw [value, values_of_allPlain h, Option.map_some]
  | .obj members, h => by
    rw [isPlain, Bool.and_eq_true, decide_eq_true_eq] at h
    rw [value, memberValues_of_membersPlain h.2, Option.map_some, lastMembers_of_nodup h.1]
  | .float _, h => by simp [isPlain] at h
  | .unreadable, h => by simp [isPlain] at h
  | .num _, _ => rfl
  | .null, _ => rfl
  | .bool _, _ => rfl
  | .str _, _ => rfl

theorem values_of_allPlain : ∀ {vs : List Json}, allPlain vs = true → values vs = some vs
  | [], _ => rfl
  | v :: vs, h => by
    rw [allPlain, Bool.and_eq_true] at h
    rw [values, value_of_isPlain h.1, values_of_allPlain h.2]

theorem memberValues_of_membersPlain :
    ∀ {ms : List (Str × Json)}, membersPlain ms = true → memberValues ms = some ms
  | [], _ => rfl
  | (name, v) :: ms, h => by
    rw [membersPlain, Bool.and_eq_true] at h
    rw [memberValues, value_of_isPlain h.1, memberValues_of_membersPlain h.2]

end

theorem allPlain_iff {vs : List Json} : allPlain vs = true ↔ ∀ v ∈ vs, v.isPlain = true := by
  induction vs with
  | nil => simp [allPlain]
  | cons v vs ih => simp [allPlain, ih]

theorem membersPlain_iff {ms : List (Str × Json)} :
    membersPlain ms = true ↔ ∀ m ∈ ms, m.2.isPlain = true := by
  induction ms with
  | nil => simp [membersPlain]
  | cons m ms ih => simp [membersPlain, ih]

/-- An object is plain if its names are all different and its members are plain. -/
theorem obj_isPlain_iff {ms : List (Str × Json)} : (Json.obj ms).isPlain = true ↔
    (ms.map Prod.fst).Nodup ∧ ∀ m ∈ ms, m.2.isPlain = true := by
  rw [isPlain, Bool.and_eq_true, decide_eq_true_eq, membersPlain_iff]

/-- Members of other names may be added. -/
theorem obj_isPlain_append {ms extra : List (Str × Json)} (h : (Json.obj ms).isPlain = true)
    (hextra : (Json.obj extra).isPlain = true) (hne : ∀ m ∈ extra, m.1 ∉ ms.map Prod.fst) :
    (Json.obj (ms ++ extra)).isPlain = true := by
  rw [obj_isPlain_iff] at h hextra ⊢
  constructor
  · rw [List.map_append]
    refine List.Nodup.append h.1 hextra.1 fun name hname hmem => ?_
    obtain ⟨m, hm, rfl⟩ := List.mem_map.mp hmem
    exact hne m hm hname
  · intro m hm
    rcases List.mem_append.mp hm with hm | hm
    · exact h.2 m hm
    · exact hextra.2 m hm

end Json

end Serde

/-
# The environment of a running child

`/proc/<pid>/environ` holds the environment of a process as entries that NUL bytes end, which need
be no text and no assignments.  `read_live_env_for_pid` returns exactly the variables of the entries
that are, each with the value of its last one (`live_env_exact`), and so the environment that the
child was sent.
-/
import Mathlib.Data.List.Nodup
import SlurmRunner.Serde.Json
import SlurmRunner.Text.Number
import SlurmRunner.Text.Utf8Encode

namespace Tssrun

open Text Serde

/-! ## 1. The code

The file of a process has one entry for each variable, with a null byte after it.  Entries that are
no UTF-8 or have no `=` are passed over. -/

/-- The errors of reading a file that the code tells apart. -/
inductive ReadError where
  | notFound
  | permissionDenied
  | other (text : Str)
deriving DecidableEq, Repr

/-- The loop body of `parse_environ`; the entries that it drops are only counted for a warning. -/
def readVar (out : List (Str × Str)) (raw : List UInt8) : List (Str × Str) :=
  if raw = [] then out
  else match fromUtf8 raw with
    | some s => match splitOnce '=' s with
      | some (k, v) => insertMember out k v
      | none => out
    | none => out

/-- `parse_environ`. -/
def parseEnviron (bytes : List UInt8) : List (Str × Str) := (bytes.splitOn 0).foldl readVar []

def environPath (pid : UInt32) : Str :=
  ("/proc/" : Str) ++ decimal pid.toNat ++ ("/environ" : Str)

/-- `read_live_env_for_pid`, where `linux` says whether this is Linux and `read` is what reading a
file returns. -/
def readLiveEnvForPid (linux : Bool) (read : Str → Except ReadError (List UInt8)) (pid : UInt32) :
    Except Str (Option (List (Str × Str))) :=
  if linux = false then .ok none
  else match read (environPath pid) with
    | .ok bytes => .ok (some (parseEnviron bytes))
    | .error .notFound => .ok none
    -- a child that is not dumpable
    | .error .permissionDenied => .ok none
    | .error (.other _) => .error (("failed to read " : Str) ++ environPath pid)

/-! ## 2. What the entries say

A variable has the value that the last entry about it assigns, and none if there is no such
entry. -/

/-- The bytes of an assignment. -/
def assignment (key value : Str) : List UInt8 := toUtf8 (key ++ '=' :: value)

/-- The last entry that assigns to `key` assigns this value. -/
def LastAssigns (entries : List (List UInt8)) (key value : Str) : Prop :=
  '=' ∉ key ∧ ∃ before after, entries = before ++ assignment key value :: after ∧
    ∀ value', assignment key value' ∉ after

/-- An entry is split into a name and a value exactly if it assigns the value to the name. -/
theorem splitOnce_fromUtf8_iff {raw : List UInt8} {key value : Str} :
    (∃ s, fromUtf8 raw = some s ∧ splitOnce '=' s = some (key, value)) ↔
      '=' ∉ key ∧ raw = assignment key value := by
  constructor
  · rintro ⟨s, hs, hsplit⟩
    obtain ⟨rfl, hkey⟩ := splitOnce_eq_some_iff.mp hsplit
    exact ⟨hkey, fromUtf8_eq_some_iff.mp hs⟩
  · rintro ⟨hkey, rfl⟩
    exact ⟨_, fromUtf8_toUtf8 _, splitOnce_append hkey value⟩

/-- An entry either assigns to a variable or changes nothing. -/
theorem readVar_cases (out : List (Str × Str)) (raw : List UInt8) :
    (∃ key value, '=' ∉ key ∧ raw = assignment key value ∧
      readVar out raw = insertMember out key value) ∨
      (∀ key value, '=' ∉ key → raw ≠ assignment key value) ∧ readVar out raw = out := by
  by_cases hassign : ∃ key value, '=' ∉ key ∧ raw = assignment key value
  · obtain ⟨key, value, hkey, hraw⟩ := hassign
    obtain ⟨s, hs, hsplit⟩ := splitOnce_fromUtf8_iff.mpr ⟨hkey, hraw⟩
    have hne : raw ≠ [] := by
      rintro rfl
      cases hs
      cases hsplit
    refine .inl ⟨key, value, hkey, hraw, ?_⟩
    unfold readVar
    rw [if_neg hne, hs]
    simp only [hsplit]
  · refine .inr ⟨fun key value hkey hraw => hassign ⟨key, value, hkey, hraw⟩, ?_⟩
    unfold readVar
    split
    · rfl
    · split
      · rename_i s hs
        split
        · rename_i k v hsplit
          exact absurd ⟨k, v, splitOnce_fromUtf8_iff.mp ⟨s, hs, hsplit⟩⟩ hassign
        · rfl
      · rfl

theorem assignment_inj {key key' value value' : Str} (hkey : '=' ∉ key) (hkey' : '=' ∉ key')
    (h : assignment key value = assignment key' value') : key = key' ∧ value = value' := by
  have hread := fromUtf8_toUtf8 (key ++ '=' :: value)
  rw [← assignment, h, assignment, fromUtf8_toUtf8, Option.some.injEq] at hread
  have hsplit := splitOnce_append hkey value
  rw [← hread, splitOnce_append hkey', Option.some.injEq, Prod.mk.injEq] at hsplit
  exact ⟨hsplit.1.symm, hsplit.2.symm⟩

/-- One more entry at the end. -/
theorem lastAssigns_concat {entries : List (List UInt8)} {raw : List UInt8} {key value : Str} :
    LastAssigns (entries ++ [raw]) key value ↔ '=' ∉ key ∧ (raw = assignment key value ∨
      (∀ value', raw ≠ assignment key value') ∧ LastAssigns entries key value) := by
  constructor
  · rintro ⟨hkey, before, after, heq, hlast⟩
    refine ⟨hkey, ?_⟩
    rcases List.eq_nil_or_concat after with rfl | ⟨after, raw', rfl⟩
    · obtain ⟨-, hraw⟩ := List.append_inj' heq rfl
      exact .inl (List.cons.inj hraw).1
    · rw [List.concat_eq_append, ← List.cons_append, ← List.append_assoc] at heq
      obtain ⟨rfl, hraw⟩ := List.append_inj' heq rfl
      obtain rfl := (List.cons.inj hraw).1
      simp only [List.concat_eq_append, List.mem_append, List.mem_singleton, not_or] at hlast
      exact .inr ⟨fun value' h => (hlast value').2 h.symm, hkey, before, after, rfl,
        fun value' => (hlast value').1⟩
  · rintro ⟨hkey, rfl | ⟨hraw, -, before, after, rfl, hlast⟩⟩
    · exact ⟨hkey, entries, [], rfl, fun _ => List.not_mem_nil⟩
    · refine ⟨hkey, before, after ++ [raw], by simp, fun value' => ?_⟩
      simp only [List.mem_append, List.mem_singleton, not_or]
      exact ⟨hlast value', fun h => hraw value' h.symm⟩

/-- An insertion changes the value of one variable. -/
theorem mem_insertMember {env : List (Str × Str)} (h : (env.map Prod.fst).Nodup)
    {key value key' value' : Str} : (key', value') ∈ insertMember env key value ↔
      if key = key' then value' = value else (key', value') ∈ env := by
  have hfilter : ∀ l : List (Str × Str),
      (key', value') ∈ l ↔ (key', value') ∈ l.filter (·.1 = key') := by
    intro l
    simp
  rw [hfilter, filter_insertMember h]
  by_cases hsame : key = key'
  · rw [if_pos hsame, if_pos hsame]
    simp [hsame]
  · rw [if_neg hsame, if_neg hsame, ← hfilter]

/-- **The loop keeps the last assignments**: a variable has one value, that of its last entry. -/
theorem foldl_readVar (entries : List (List UInt8)) :
    ((entries.foldl readVar []).map Prod.fst).Nodup ∧
      ∀ key value, (key, value) ∈ entries.foldl readVar [] ↔ LastAssigns entries key value := by
  induction entries using List.reverseRecOn with
  | nil =>
    refine ⟨List.nodup_nil, fun key value => ⟨fun h => (List.not_mem_nil h).elim, ?_⟩⟩
    rintro ⟨-, before, after, heq, -⟩
    simp at heq
  | append_singleton entries raw ih =>
    obtain ⟨hnodup, hmem⟩ := ih
    rw [List.foldl_append, List.foldl_cons, List.foldl_nil]
    rcases readVar_cases (entries.foldl readVar []) raw with
      ⟨key, value, hkey, rfl, hread⟩ | ⟨hnot, hread⟩
    · rw [hread]
      refine ⟨nodup_insertMember hnodup key value, fun key' value' => ?_⟩
      rw [lastAssigns_concat, mem_insertMember hnodup]
      by_cases hsame : key = key'
      · subst hsame
        rw [if_pos rfl]
        constructor
        · rintro rfl
          exact ⟨hkey, .inl rfl⟩
        · rintro ⟨-, heq | ⟨hne, -⟩⟩
          · exact (assignment_inj hkey hkey heq).2.symm
          · exact absurd rfl (hne value)
      · rw [if_neg hsame, hmem]
        have hdiffers : '=' ∉ key' → ∀ v, assignment key value ≠ assignment key' v :=
          fun hkey' v h => hsame (assignment_inj hkey hkey' h).1
        constructor
        · intro hlast
          exact ⟨hlast.1, .inr ⟨hdiffers hlast.1, hlast⟩⟩
        · rintro ⟨hkey', heq | ⟨-, hlast⟩⟩
          · exact absurd heq (hdiffers hkey' value')
          · exact hlast
    · rw [hread]
      refine ⟨hnodup, fun key value => ?_⟩
      rw [lastAssigns_concat, hmem]
      constructor
      · intro hlast
        exact ⟨hlast.1, .inr ⟨fun value' => hnot key value' hlast.1, hlast⟩⟩
      · rintro ⟨hkey, heq | ⟨-, hlast⟩⟩
        · exact absurd heq (hnot key value hkey)
        · exact hlast

/-! ## 3. The environment that was sent

The block that the kernel keeps of an environment is read back, whatever the order in which the map
of the source listed it. -/

/-- The kernel's form of an environment. -/
def environBlock (env : List (Str × Str)) : List UInt8 :=
  env.flatMap fun kv => assignment kv.1 kv.2 ++ [0]

/-- An environment that a process can be given. -/
structure Sendable (env : List (Str × Str)) : Prop where
  nodup : (env.map Prod.fst).Nodup
  key : ∀ kv ∈ env, '=' ∉ kv.1 ∧ '\x00' ∉ kv.1
  value : ∀ kv ∈ env, '\x00' ∉ kv.2

/-- A NUL byte comes from the NUL character. -/
theorem zero_not_mem_toUtf8 {s : Str} (h : '\x00' ∉ s) : 0 ∉ toUtf8 s := by
  intro hzero
  obtain ⟨c, hc, hbyte⟩ := List.mem_flatMap.mp hzero
  have hcode : c.toNat = 0 := by
    have henc := encodes_utf8EncodeChar c
    generalize String.utf8EncodeChar c = bs at henc hbyte
    cases henc
    all_goals
      simp only [List.mem_cons, List.not_mem_nil, or_false, ← UInt8.toNat_inj, UInt8.toNat_zero]
        at hbyte
      omega
  exact h (by rwa [← Char.ofNat_toNat c, hcode] at hc)

/-- The entries of a block, and what follows the last NUL. -/
theorem splitOn_environBlock {env : List (Str × Str)} (h : Sendable env) :
    (environBlock env).splitOn 0 = (env.map fun kv => assignment kv.1 kv.2) ++ [[]] := by
  obtain ⟨-, hkeys, hvalues⟩ := h
  induction env with
  | nil => rfl
  | cons kv env ih =>
    have hnul : 0 ∉ assignment kv.1 kv.2 := by
      refine zero_not_mem_toUtf8 ?_
      simp only [List.mem_append, List.mem_cons, not_or]
      exact ⟨(hkeys kv List.mem_cons_self).2, by decide, hvalues kv List.mem_cons_self⟩
    have hrest := ih (fun kv' h' => hkeys kv' (List.mem_cons_of_mem _ h'))
      fun kv' h' => hvalues kv' (List.mem_cons_of_mem _ h')
    rw [environBlock, List.flatMap_cons, List.append_assoc, List.singleton_append,
      List.splitOn_append_cons_self_of_not_mem hnul]
    exact congrArg (assignment kv.1 kv.2 :: ·) hrest

/-- In the block of an environment, every variable is assigned once. -/
theorem lastAssigns_environBlock {env : List (Str × Str)} (h : Sendable env) {key value : Str} :
    LastAssigns ((environBlock env).splitOn 0) key value ↔ (key, value) ∈ env := by
  have hnil : ∀ k v, assignment k v ≠ [] := by
    intro k v hempty
    have hread := fromUtf8_toUtf8 (k ++ '=' :: v)
    rw [← assignment, hempty] at hread
    simp [fromUtf8, utf8From] at hread
  rw [splitOn_environBlock h, lastAssigns_concat]
  constructor
  · rintro ⟨hkey, heq | ⟨-, -, before, after, hentries, -⟩⟩
    · exact absurd heq.symm (hnil key value)
    · have hmem : assignment key value ∈ env.map fun kv => assignment kv.1 kv.2 := by
        rw [hentries]
        exact List.mem_append_right _ List.mem_cons_self
      obtain ⟨⟨k, v⟩, hkv, heq⟩ := List.mem_map.mp hmem
      obtain ⟨rfl, rfl⟩ := assignment_inj (h.key _ hkv).1 hkey heq
      exact hkv
  · intro hmem
    have hkey := (h.key _ hmem).1
    obtain ⟨before, after, rfl⟩ := List.append_of_mem hmem
    refine ⟨hkey, .inr ⟨fun value' heq => hnil key value' heq.symm, hkey,
      before.map fun kv => assignment kv.1 kv.2, after.map fun kv => assignment kv.1 kv.2,
      by simp, fun value' hlater => ?_⟩⟩
    obtain ⟨⟨k, v⟩, hkv, heq⟩ := List.mem_map.mp hlater
    obtain ⟨rfl, -⟩ := assignment_inj
      (h.key _ (List.mem_append_right _ (List.mem_cons_of_mem _ hkv))).1 hkey heq
    have hnodup := h.nodup
    rw [List.map_append, List.map_cons] at hnodup
    have hnotin := (List.nodup_cons.mp (List.Nodup.of_append_right hnodup)).1
    exact hnotin (List.mem_map.mpr ⟨_, hkv, rfl⟩)

/-- **The live environment is exact**: it has one value for each variable, that of the last entry
which assigns to it, and where the kernel holds the environment that was sent, it is that. -/
theorem live_env_exact {read : Str → Except ReadError (List UInt8)} {pid : UInt32}
    {bytes : List UInt8} (hread : read (environPath pid) = .ok bytes) :
    ∃ env, readLiveEnvForPid true read pid = .ok (some env) ∧ (env.map Prod.fst).Nodup ∧
      (∀ key value, (key, value) ∈ env ↔ LastAssigns (bytes.splitOn 0) key value) ∧
      ∀ sent, Sendable sent → bytes = environBlock sent → env.Perm sent := by
  obtain ⟨hnodup, hmem⟩ := foldl_readVar (bytes.splitOn 0)
  refine ⟨parseEnviron bytes, by simp [readLiveEnvForPid, hread], hnodup, hmem, ?_⟩
  rintro sent hsent rfl
  refine (List.perm_ext_iff_of_nodup hnodup.of_map hsent.nodup.of_map).mpr ?_
  rintro ⟨key, value⟩
  exact (hmem key value).trans (lastAssigns_environBlock hsent)

/-- A variable twice, an entry that is no text, a value with an equals sign, and an entry without
one. -/
def mixedBlock : List UInt8 :=
  assignment "A" "1" ++ 0 :: 0xFF :: 0x3D :: 0 :: assignment "B" "x=y" ++ 0 :: 0x43 :: 0 ::
    assignment "A" "2"

/-- Every file is this block. -/
def readsMixed (_ : Str) : Except ReadError (List UInt8) := .ok mixedBlock

theorem live_env_exact_mixed : ∃ env, readLiveEnvForPid true readsMixed 7 = .ok (some env) ∧
    env = [(("A" : Str), ("2" : Str)), ("B", "x=y")] ∧ (env.map Prod.fst).Nodup := by
  have hread : readsMixed (environPath 7) = .ok mixedBlock := rfl
  obtain ⟨env, henv, hnodup, -⟩ := live_env_exact hread
  have heval : readLiveEnvForPid true readsMixed 7 =
      .ok (some [(("A" : Str), ("2" : Str)), ("B", "x=y")]) := by
    decide +kernel
  refine ⟨env, henv, ?_, hnodup⟩
  rw [heval] at henv
  exact (Option.some.inj (Except.ok.inj henv)).symm

end Tssrun

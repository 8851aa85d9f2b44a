/-
# Resource specifications as text

The parser of `--rsc` reads `key=value` tokens into five accumulators, one for each key, and looks
at what it has at the end.  The tokens are taken here as settings of keys, whose order does not
matter (`ofSettings_perm`), so that what is accepted can be said of the set of the keys
(`resource_spec_order_free`).
-/
import SlurmRunner.Slurm.ArraySpec
import SlurmRunner.Slurm.Options
import Mathlib.Data.Finset.Insert
import Mathlib.Data.List.Perm.Basic

namespace Slurm

open Text

/-! ## 1. Parsing

The settings of a text are taken one after another into the keys that were given so far, and each
key may be given once. -/

/-- `from_char`. -/
def MemoryUnit.fromChar : Char → Option MemoryUnit
  | 'K' => some kilo
  | 'M' => some mega
  | 'G' => some giga
  | 'T' => some tera
  | _ => none

/-- The number and the unit; without a unit the number is one of mebibytes. -/
def Memory.splitUnit (s : Str) : Option (Str × MemoryUnit) :=
  s.getLast?.bind fun last =>
    if last.isDigit then some (s, .mega)
    else (MemoryUnit.fromChar last).map fun unit => (s.dropLast, unit)

/-- `from_str`. -/
def Memory.fromStr (s : Str) : Except SchemaParseError Memory :=
  let err : Except SchemaParseError Memory := .error (.parseError "resource_spec/m" s)
  if s = [] then err
  else match splitUnit s with
    | none => err
    | some (digits, unit) =>
      if digits = [] then err
      else match parseU32 digits with
        | none => err
        | some raw =>
          match NonZeroU32.new raw with
          | some value => .ok ⟨value, unit⟩
          | none => err

/-- `parse_count`. -/
def parseCount (key raw original : Str) : Except SchemaParseError NonZeroU32 :=
  match (parseU32 raw).bind NonZeroU32.new with
  | some n => .ok n
  | none => .error (.parseError (("resource_spec/" : Str) ++ key) original)

/-- The values that were given so far. -/
structure ResourceKeys where
  p : Option NonZeroU32
  t : Option NonZeroU32
  c : Option NonZeroU32
  m : Option Memory
  g : Option NonZeroU32
deriving DecidableEq, Repr

def ResourceKeys.empty : ResourceKeys := ⟨none, none, none, none, none⟩

/-- One round of the loop in `from_str`, where `original` is the whole text. -/
def ResourceSpec.readToken (original : Str) (acc : ResourceKeys) (token : Str) :
    Except SchemaParseError ResourceKeys :=
  let err : Except SchemaParseError ResourceKeys := .error (.parseError "resource_spec" original)
  match splitOnce '=' token with
  | none => err
  | some (key, value) =>
    if key = [] ∨ value = [] then err
    else if key = "p" then
      if acc.p.isSome then err
      else (parseCount "p" value original).map fun n => { acc with p := some n }
    else if key = "t" then
      if acc.t.isSome then err
      else (parseCount "t" value original).map fun n => { acc with t := some n }
    else if key = "c" then
      if acc.c.isSome then err
      else (parseCount "c" value original).map fun n => { acc with c := some n }
    else if key = "m" then
      if acc.m.isSome then err
      else (Memory.fromStr value).map fun m => { acc with m := some m }
    else if key = "g" then
      if acc.g.isSome then err
      else (parseCount "g" value original).map fun n => { acc with g := some n }
    else err

/-- The specification with the given values; `g` excludes the other keys. -/
def ResourceKeys.toSpec (acc : ResourceKeys) : Option ResourceSpec :=
  match acc.g, acc.p, acc.t, acc.c, acc.m with
  | some g, none, none, none, none => some (.gpu ⟨g⟩)
  | some _, _, _, _, _ => none
  | none, p, t, c, m =>
    if p.isSome || t.isSome || c.isSome || m.isSome then some (.cpu ⟨p, t, c, m⟩) else none

/-- `from_str`. -/
def ResourceSpec.fromStr (s : Str) : Except SchemaParseError ResourceSpec :=
  if s = [] then .error (.parseError "resource_spec" s)
  else match (s.splitOn ':').foldlM (readToken s) .empty with
    | .error e => .error e
    | .ok acc =>
      match acc.toSpec with
      | some spec => .ok spec
      | none => .error (.parseError "resource_spec" s)

/-! ## 2. Settings

A setting is a key with its value.  The parser is a loop over settings, whatever their texts are. -/

inductive ResourceKey where
  | p
  | t
  | c
  | m
  | g
deriving DecidableEq, Repr

def ResourceKey.letter : ResourceKey → Char
  | p => 'p'
  | t => 't'
  | c => 'c'
  | m => 'm'
  | g => 'g'

/-- A key with its value. -/
inductive ResourceSetting where
  | p (n : NonZeroU32)
  | t (n : NonZeroU32)
  | c (n : NonZeroU32)
  | m (memory : Memory)
  | g (n : NonZeroU32)
deriving DecidableEq, Repr

namespace ResourceSetting

def key : ResourceSetting → ResourceKey
  | p _ => .p
  | t _ => .t
  | c _ => .c
  | m _ => .m
  | g _ => .g

/-- The parser of the field accepts `v` as the value. -/
def ReadsValue (v : Str) : ResourceSetting → Prop
  | p n | t n | c n | g n => parseU32 v = some n.val
  | m memory => Memory.fromStr v = .ok memory

/-- `token` is the setting. -/
def Reads (token : Str) (x : ResourceSetting) : Prop :=
  ∃ v, token = x.key.letter :: '=' :: v ∧ x.ReadsValue v

end ResourceSetting

namespace ResourceKeys

/-- The key was given. -/
def has (acc : ResourceKeys) : ResourceKey → Bool
  | .p => acc.p.isSome
  | .t => acc.t.isSome
  | .c => acc.c.isSome
  | .m => acc.m.isSome
  | .g => acc.g.isSome

def set (acc : ResourceKeys) : ResourceSetting → ResourceKeys
  | .p n => { acc with p := some n }
  | .t n => { acc with t := some n }
  | .c n => { acc with c := some n }
  | .m memory => { acc with m := some memory }
  | .g n => { acc with g := some n }

@[simp] theorem has_empty (k : ResourceKey) : empty.has k = false := by
  cases k <;> rfl

@[simp] theorem has_set (acc : ResourceKeys) (x : ResourceSetting) (k : ResourceKey) :
    (acc.set x).has k = (k == x.key || acc.has k) := by
  cases x <;> cases k <;> rfl

/-- What is free after a key was set was free before, and is not that key. -/
theorem forall_free_set (acc : ResourceKeys) {x : ResourceSetting} {xs : List ResourceSetting} :
    (∀ y ∈ xs, (acc.set x).has y.key = false) ↔
      x.key ∉ xs.map ResourceSetting.key ∧ ∀ y ∈ xs, acc.has y.key = false := by
  simp only [has_set, Bool.or_eq_false_iff, beq_eq_false_iff_ne, List.mem_map, not_exists, not_and]
  exact forall₂_and

/-- Different keys may be given in any order. -/
theorem set_comm (acc : ResourceKeys) {x y : ResourceSetting} (h : x.key ≠ y.key) :
    (acc.set x).set y = (acc.set y).set x := by
  cases x <;> cases y <;> first | rfl | exact absurd rfl h

end ResourceKeys

/-- A count is a number above zero. -/
theorem parseCount_eq_ok {key raw original : Str} {n : NonZeroU32} :
    parseCount key raw original = .ok n ↔ parseU32 raw = some n.val := by
  have hbind : (parseU32 raw).bind NonZeroU32.new = some n ↔ parseU32 raw = some n.val := by
    simp [Option.bind_eq_some_iff, NonZeroU32.new_eq_some, eq_comm]
  rw [← hbind, parseCount]
  cases (parseU32 raw).bind NonZeroU32.new with
  | none => simp
  | some m => simp

namespace ResourceSetting

/-- A setting is read from its letter and its value. -/
theorem reads_of_key {key v : Str} {x : ResourceSetting} (hkey : key = [x.key.letter])
    (hv : x.ReadsValue v) : x.Reads (key ++ '=' :: v) :=
  ⟨v, by rw [hkey]; rfl, hv⟩

theorem ReadsValue.ne_nil {v : Str} {x : ResourceSetting} (h : x.ReadsValue v) : v ≠ [] := by
  rintro rfl
  cases x <;> cases h

end ResourceSetting

/-- A branch of the loop: a key that is given twice is refused. -/
theorem branch_eq_ok {α : Type} {given : Bool} {e : SchemaParseError} {acc' : ResourceKeys}
    {x : Except SchemaParseError α} {set : α → ResourceKeys} :
    (if given = true then Except.error e else x.map set) = .ok acc' ↔
      given = false ∧ ∃ a, x = .ok a ∧ set a = acc' := by
  cases given with
  | true => simp
  | false => simp [map_eq_ok]

/-- **One token** sets one key that was not given before. -/
theorem readToken_eq_ok {original token : Str} {acc acc' : ResourceKeys} :
    ResourceSpec.readToken original acc token = .ok acc' ↔
      ∃ x : ResourceSetting, x.Reads token ∧ acc.has x.key = false ∧ acc.set x = acc' := by
  constructor
  · intro h
    unfold ResourceSpec.readToken at h
    dsimp only at h
    split at h
    · cases h
    rename_i key v hsplit
    obtain ⟨rfl, -⟩ := splitOnce_eq_some_iff.mp hsplit
    split at h
    · cases h
    split at h
    · rename_i hkey
      obtain ⟨hfree, n, hn, hset⟩ := branch_eq_ok.mp h
      exact ⟨.p n, ResourceSetting.reads_of_key hkey (parseCount_eq_ok.mp hn), hfree, hset⟩
    split at h
    · rename_i hkey
      obtain ⟨hfree, n, hn, hset⟩ := branch_eq_ok.mp h
      exact ⟨.t n, ResourceSetting.reads_of_key hkey (parseCount_eq_ok.mp hn), hfree, hset⟩
    split at h
    · rename_i hkey
      obtain ⟨hfree, n, hn, hset⟩ := branch_eq_ok.mp h
      exact ⟨.c n, ResourceSetting.reads_of_key hkey (parseCount_eq_ok.mp hn), hfree, hset⟩
    split at h
    · rename_i hkey
      obtain ⟨hfree, memory, hmemory, hset⟩ := branch_eq_ok.mp h
      exact ⟨.m memory, ResourceSetting.reads_of_key hkey hmemory, hfree, hset⟩
    split at h
    · rename_i hkey
      obtain ⟨hfree, n, hn, hset⟩ := branch_eq_ok.mp h
      exact ⟨.g n, ResourceSetting.reads_of_key hkey (parseCount_eq_ok.mp hn), hfree, hset⟩
    · cases h
  · rintro ⟨x, ⟨v, rfl, hv⟩, hfree, hset⟩
    have hletter : '=' ∉ [x.key.letter] := by
      cases x.key <;> decide
    have hsplit : splitOnce '=' (x.key.letter :: '=' :: v) = some ([x.key.letter], v) :=
      splitOnce_append hletter v
    have hnil : ¬ ([x.key.letter] = [] ∨ v = []) := by simp [hv.ne_nil]
    rw [ResourceSpec.readToken, hsplit]
    dsimp only
    rw [if_neg hnil]
    cases x with
    -- the tests before the one of the key fail, and that one holds
    | p n =>
      dsimp only [ResourceSetting.key, ResourceKey.letter]
      refine Eq.trans (if_pos (by decide)) ?_
      exact branch_eq_ok.mpr ⟨hfree, n, parseCount_eq_ok.mpr hv, hset⟩
    | t n =>
      dsimp only [ResourceSetting.key, ResourceKey.letter]
      refine Eq.trans (if_neg (by decide)) ?_
      refine Eq.trans (if_pos (by decide)) ?_
      exact branch_eq_ok.mpr ⟨hfree, n, parseCount_eq_ok.mpr hv, hset⟩
    | c n =>
      dsimp only [ResourceSetting.key, ResourceKey.letter]
      refine Eq.trans (if_neg (by decide)) ?_
      refine Eq.trans (if_neg (by decide)) ?_
      refine Eq.trans (if_pos (by decide)) ?_
      exact branch_eq_ok.mpr ⟨hfree, n, parseCount_eq_ok.mpr hv, hset⟩
    | m memory =>
      dsimp only [ResourceSetting.key, ResourceKey.letter]
      refine Eq.trans (if_neg (by decide)) ?_
      refine Eq.trans (if_neg (by decide)) ?_
      refine Eq.trans (if_neg (by decide)) ?_
      refine Eq.trans (if_pos (by decide)) ?_
      exact branch_eq_ok.mpr ⟨hfree, memory, hv, hset⟩
    | g n =>
      dsimp only [ResourceSetting.key, ResourceKey.letter]
      refine Eq.trans (if_neg (by decide)) ?_
      refine Eq.trans (if_neg (by decide)) ?_
      refine Eq.trans (if_neg (by decide)) ?_
      refine Eq.trans (if_neg (by decide)) ?_
      refine Eq.trans (if_pos (by decide)) ?_
      exact branch_eq_ok.mpr ⟨hfree, n, parseCount_eq_ok.mpr hv, hset⟩

/-- **The whole loop** sets the keys of the tokens, each of them once. -/
theorem readTokens_eq_ok {original : Str} {tokens : List Str} {acc acc' : ResourceKeys} :
    tokens.foldlM (ResourceSpec.readToken original) acc = .ok acc' ↔
      ∃ xs, List.Forall₂ ResourceSetting.Reads tokens xs ∧ (xs.map ResourceSetting.key).Nodup ∧
        (∀ x ∈ xs, acc.has x.key = false) ∧ xs.foldl ResourceKeys.set acc = acc' := by
  induction tokens generalizing acc with
  | nil =>
    simp [pure, Except.pure]
  | cons token tokens ih =>
    rw [List.foldlM_cons, bind_eq_ok]
    simp only [readToken_eq_ok, ih]
    constructor
    · rintro ⟨_, ⟨x, hx, hfree, rfl⟩, xs, hxs, hnodup, hfrees, hset⟩
      obtain ⟨hkey, hfrees⟩ := acc.forall_free_set.mp hfrees
      refine ⟨x :: xs, .cons hx hxs, ?_, List.forall_mem_cons.mpr ⟨hfree, hfrees⟩, hset⟩
      rw [List.map_cons, List.nodup_cons]
      exact ⟨hkey, hnodup⟩
    · rintro ⟨xs, hread, hnodup, hfrees, hset⟩
      obtain ⟨x, xs, hx, hxs, rfl⟩ := List.forall₂_cons_left_iff.mp hread
      rw [List.map_cons, List.nodup_cons] at hnodup
      obtain ⟨hfree, hfrees⟩ := List.forall_mem_cons.mp hfrees
      exact ⟨_, ⟨x, hx, hfree, rfl⟩, xs, hxs, hnodup.2,
        acc.forall_free_set.mpr ⟨hnodup.1, hfrees⟩, hset⟩

/-! ## 3. Any order of the settings

The keys that were given hold one setting each, so another order of the same settings gives the same
keys. -/

/-- The values of a list of settings. -/
def ofSettings (xs : List ResourceSetting) : ResourceKeys := xs.foldl ResourceKeys.set .empty

/-- **The order of settings of different keys does not matter.** -/
theorem ofSettings_perm {xs ys : List ResourceSetting} (hperm : xs.Perm ys)
    (hnodup : (xs.map ResourceSetting.key).Nodup) : ofSettings xs = ofSettings ys := by
  refine hperm.foldl_eq' ?_ _
  intro x hx y hy acc
  by_cases hkey : x.key = y.key
  · rw [List.inj_on_of_nodup_map hnodup hx hy hkey]
  · exact acc.set_comm hkey

/-- **What the parser accepts.** -/
theorem ResourceSpec.fromStr_eq_ok {s : Str} {spec : ResourceSpec} :
    fromStr s = .ok spec ↔ s ≠ [] ∧ ∃ xs, List.Forall₂ ResourceSetting.Reads (s.splitOn ':') xs ∧
      (xs.map ResourceSetting.key).Nodup ∧ (ofSettings xs).toSpec = some spec := by
  unfold fromStr
  by_cases hs : s = []
  · simp [hs]
  rw [if_neg hs]
  constructor
  · intro h
    split at h
    · cases h
    rename_i acc hloop
    split at h
    · rename_i spec' hspec
      cases h
      obtain ⟨xs, hxs, hnodup, -, rfl⟩ := readTokens_eq_ok.mp hloop
      exact ⟨hs, xs, hxs, hnodup, hspec⟩
    · cases h
  · rintro ⟨-, xs, hxs, hnodup, hspec⟩
    have hloop : (s.splitOn ':').foldlM (readToken s) .empty = .ok (ofSettings xs) :=
      readTokens_eq_ok.mpr ⟨xs, hxs, hnodup, fun x _ => ResourceKeys.has_empty _, rfl⟩
    simp only [hloop, hspec]

/-! ## 4. Which keys are accepted

Any of the four keys of a CPU request, but at least one, or the key of a GPU request alone. -/

theorem ResourceKey.exists_iff {P : ResourceKey → Prop} :
    (∃ k, P k) ↔ P .p ∨ P .t ∨ P .c ∨ P .m ∨ P .g := by
  constructor
  · rintro ⟨k, hk⟩
    cases k <;> simp [hk]
  · rintro (h | h | h | h | h) <;> exact ⟨_, h⟩

/-- The final match takes `g` alone, or some of the others. -/
theorem ResourceKeys.exists_toSpec {acc : ResourceKeys} :
    (∃ spec, acc.toSpec = some spec) ↔
      (∀ k, acc.has k = true ↔ k = .g) ∨ acc.has .g ≠ true ∧ ∃ k, acc.has k = true := by
  obtain ⟨p, t, c, m, g⟩ := acc
  cases g with
  | none =>
    have hg : ¬ ∀ k, has ⟨p, t, c, m, none⟩ k = true ↔ k = .g := by
      intro h
      cases (h .g).mpr rfl
    have hspec : (∃ spec, toSpec ⟨p, t, c, m, none⟩ = some spec) ↔
        (p.isSome || t.isSome || c.isSome || m.isSome) = true := by
      simp [toSpec]
    rw [hspec, or_iff_right hg, ResourceKey.exists_iff]
    simp [has, or_assoc]
  | some g =>
    have hg : (∀ k, has ⟨p, t, c, m, some g⟩ k = true ↔ k = .g) ↔
        p = none ∧ t = none ∧ c = none ∧ m = none := by
      constructor
      · intro h
        exact ⟨by simpa [has] using h .p, by simpa [has] using h .t, by simpa [has] using h .c,
          by simpa [has] using h .m⟩
      · rintro ⟨rfl, rfl, rfl, rfl⟩ k
        cases k <;> simp [has]
    have hspec : (∃ spec, toSpec ⟨p, t, c, m, some g⟩ = some spec) ↔
        p = none ∧ t = none ∧ c = none ∧ m = none := by
      cases p <;> cases t <;> cases c <;> cases m <;> simp [toSpec]
    rw [hspec, hg]
    simp [has]

/-- A key was given if one of the settings has it. -/
theorem has_foldl {xs : List ResourceSetting} {acc : ResourceKeys} {k : ResourceKey} :
    (xs.foldl ResourceKeys.set acc).has k = true ↔
      k ∈ xs.map ResourceSetting.key ∨ acc.has k = true := by
  induction xs generalizing acc with
  | nil => simp
  | cons x xs ih =>
    rw [List.foldl_cons, ih, ResourceKeys.has_set, List.map_cons, List.mem_cons]
    simp only [Bool.or_eq_true, beq_iff_eq]
    tauto

/-- A key has a value if it was set. -/
theorem has_ofSettings {xs : List ResourceSetting} {k : ResourceKey} :
    (ofSettings xs).has k = true ↔ k ∈ xs.map ResourceSetting.key := by
  rw [ofSettings, has_foldl]
  simp

/-- The keys are `g` alone, or some of `p`, `t`, `c` and `m`. -/
def AllowedKeys (keys : List ResourceKey) : Prop :=
  keys.toFinset = {.g} ∨ keys.toFinset.Nonempty ∧ keys.toFinset ⊆ {.p, .t, .c, .m}

/-- **Which keys make a specification.** -/
theorem exists_toSpec_ofSettings {xs : List ResourceSetting} :
    (∃ spec, (ofSettings xs).toSpec = some spec) ↔ AllowedKeys (xs.map ResourceSetting.key) := by
  simp only [ResourceKeys.exists_toSpec, has_ofSettings, ne_eq]
  generalize xs.map ResourceSetting.key = keys
  refine or_congr ?_ ?_
  · simp [Finset.ext_iff]
  · rw [and_comm]
    refine and_congr ?_ ?_
    · simp [Finset.Nonempty]
    · rw [Finset.subset_iff]
      simp only [List.mem_toFinset, Finset.mem_insert, Finset.mem_singleton]
      constructor
      · intro hg k hk
        cases k <;> simp_all
      · intro h hg
        simpa using h hg

/-! ## 5. The canonical text

The settings of a specification in the order of its keys, which is one of the orders that are
accepted. -/

namespace ResourceSetting

/-- The value as it is printed. -/
def valueStr : ResourceSetting → Str
  | p n | t n | c n | g n => n.toStr
  | m memory => memory.toStr

/-- The token as it is printed. -/
def toStr (x : ResourceSetting) : Str := x.key.letter :: '=' :: x.valueStr

end ResourceSetting

/-- The given values as settings, in the order in which they are printed. -/
def ResourceKeys.settings (acc : ResourceKeys) : List ResourceSetting :=
  (acc.p.map .p).toList ++ (acc.t.map .t).toList ++ (acc.c.map .c).toList ++
    (acc.m.map .m).toList ++ (acc.g.map .g).toList

def ResourceSpec.settings : ResourceSpec → List ResourceSetting
  | cpu c => (c.p.map .p).toList ++ (c.t.map .t).toList ++ (c.c.map .c).toList ++
      (c.m.map .m).toList
  | gpu g => [.g g.g]

/-- A specification is printed setting by setting. -/
theorem ResourceSpec.toStr_eq (spec : ResourceSpec) :
    spec.toStr = List.intercalate [':'] (spec.settings.map ResourceSetting.toStr) := by
  cases spec with
  | gpu g =>
    simp only [toStr, settings, List.map_cons, List.map_nil, List.intercalate_singleton]
    rfl
  | cpu c =>
    simp only [toStr, settings, List.map_append, Option.toList_map, List.map_map]
    rfl

/-- A specification has the settings that it was made of. -/
theorem ResourceKeys.settings_of_toSpec {acc : ResourceKeys} {spec : ResourceSpec}
    (h : acc.toSpec = some spec) : spec.settings = acc.settings := by
  obtain ⟨p, t, c, m, g⟩ := acc
  unfold toSpec at h
  dsimp only at h
  split at h
  · cases h
    rfl
  · cases h
  · split at h
    · cases h
      simp [ResourceSpec.settings, settings]
    · cases h

/-- Settings that were taken from accumulators fill them again. -/
theorem ResourceKeys.ofSettings_settings (acc : ResourceKeys) : ofSettings acc.settings = acc := by
  obtain ⟨p, t, c, m, g⟩ := acc
  cases p <;> cases t <;> cases c <;> cases m <;> cases g <;> rfl

/-- A key that is set for the first time has one more setting. -/
theorem ResourceKeys.perm_settings_set {acc : ResourceKeys} {x : ResourceSetting}
    (h : acc.has x.key = false) : (acc.set x).settings.Perm (x :: acc.settings) := by
  have hnone : ∀ {α : Type} {o : Option α}, o.isSome = false → o = none :=
    Option.not_isSome_iff_eq_none.mp ∘ ne_true_of_eq_false
  rw [List.perm_iff_count]
  intro y
  cases x with
  | p n => simp [settings, set, hnone h, List.count_cons]
  | t n =>
    simp [settings, set, hnone h, List.count_cons]
    omega
  | c n =>
    simp [settings, set, hnone h, List.count_cons]
    omega
  | m n =>
    simp [settings, set, hnone h, List.count_cons]
    omega
  | g n =>
    simp [settings, set, hnone h, List.count_cons]
    omega

/-- The values of settings of different keys are these settings. -/
theorem perm_settings_foldl {xs : List ResourceSetting} {acc : ResourceKeys}
    (hnodup : (xs.map ResourceSetting.key).Nodup) (hfree : ∀ x ∈ xs, acc.has x.key = false) :
    (xs.foldl ResourceKeys.set acc).settings.Perm (xs ++ acc.settings) := by
  induction xs generalizing acc with
  | nil => exact .refl _
  | cons x xs ih =>
    rw [List.map_cons, List.nodup_cons] at hnodup
    obtain ⟨hx, hxs⟩ := List.forall_mem_cons.mp hfree
    have hrest := ih hnodup.2 (acc.forall_free_set.mpr ⟨hnodup.1, hxs⟩)
    have hfirst := (acc.perm_settings_set hx).append_left xs
    exact (hrest.trans hfirst).trans List.perm_middle

/-- A unit is read back from its letter. -/
theorem MemoryUnit.fromChar_asChar (u : MemoryUnit) : fromChar u.asChar = some u := by
  cases u <;> rfl

/-- A printed amount of memory reads back. -/
theorem Memory.fromStr_toStr (memory : Memory) : fromStr memory.toStr = .ok memory := by
  obtain ⟨value, unit⟩ := memory
  have hdigit : unit.asChar.isDigit = false := by
    cases unit <;> rfl
  have hsplit : splitUnit (value.toStr ++ [unit.asChar]) = some (value.toStr, unit) := by
    simp [splitUnit, hdigit, MemoryUnit.fromChar_asChar]
  have hvalue : parseU32 value.toStr = some value.val := parseU32_decimal _
  have hnew : NonZeroU32.new value.val = some value := NonZeroU32.new_eq_some.mpr rfl
  have hnil : value.toStr ≠ [] := decimal_ne_nil _
  rw [fromStr, toStr, if_neg (by simp), hsplit]
  simp only [if_neg hnil, hvalue, hnew]

/-- **A printed setting reads back.** -/
theorem ResourceSetting.reads_toStr (x : ResourceSetting) : x.Reads x.toStr := by
  refine ⟨x.valueStr, rfl, ?_⟩
  cases x with
  | m memory => exact memory.fromStr_toStr
  | _ n => exact parseU32_decimal n.val

theorem ResourceSetting.colon_not_mem (x : ResourceSetting) : ':' ∉ x.toStr := by
  have hletter : ':' ≠ x.key.letter := by
    cases x <;> simp [key, ResourceKey.letter]
  have hvalue : ':' ∉ x.valueStr := by
    cases x with
    | m memory =>
      have hunit : ':' ≠ memory.unit.asChar := by
        cases memory.unit <;> decide
      simp [valueStr, Memory.toStr, NonZeroU32.toStr, not_mem_decimal, hunit]
    | _ n => exact not_mem_decimal rfl
  simp [toStr, hletter, hvalue]

/-- The settings are in the order of their keys. -/
theorem ResourceKeys.sublist_settings (acc : ResourceKeys) :
    (acc.settings.map ResourceSetting.key).Sublist [.p, .t, .c, .m, .g] := by
  have hone : ∀ {α : Type} (o : Option α) (f : α → ResourceSetting) (k : ResourceKey),
      (∀ a, (f a).key = k) → ((o.map f).toList.map ResourceSetting.key).Sublist [k] := by
    intro α o f k hf
    cases o with
    | none => exact List.nil_sublist _
    | some a => simp [hf a]
  simp only [settings, List.map_append]
  have hp := hone acc.p .p .p fun _ => rfl
  have ht := hone acc.t .t .t fun _ => rfl
  have hc := hone acc.c .c .c fun _ => rfl
  have hm := hone acc.m .m .m fun _ => rfl
  have hg := hone acc.g .g .g fun _ => rfl
  exact (((hp.append ht).append hc).append hm).append hg

namespace ResourceSpec

/-- Tokens that are settings make a text that is not empty. -/
theorem ne_nil_of_reads {tokens : List Str} {xs : List ResourceSetting} (hne : tokens ≠ [])
    (h : List.Forall₂ ResourceSetting.Reads tokens xs) : List.intercalate [':'] tokens ≠ [] := by
  obtain ⟨token, htoken⟩ := List.exists_mem_of_ne_nil tokens hne
  obtain ⟨x, -, v, rfl, -⟩ := exists_of_mem_left h htoken
  exact intercalate_ne_nil htoken (by simp)

/-- **A permutation of the tokens** is read as the same value. -/
theorem fromStr_of_perm {s : Str} {tokens : List Str} {spec : ResourceSpec}
    (hperm : tokens.Perm (s.splitOn ':')) (h : fromStr s = .ok spec) :
    fromStr (List.intercalate [':'] tokens) = .ok spec := by
  obtain ⟨-, xs, hxs, hnodup, hspec⟩ := fromStr_eq_ok.mp h
  obtain ⟨ys, hys, hyx⟩ := List.perm_comp_forall₂ hperm hxs
  have hne : tokens ≠ [] := by
    rintro rfl
    exact List.splitOn_ne_nil ':' s hperm.nil_eq.symm
  have hnodup' : (ys.map ResourceSetting.key).Nodup := (hyx.map _).nodup_iff.mpr hnodup
  refine fromStr_eq_ok.mpr ⟨ne_nil_of_reads hne hys, ys, ?_, hnodup', ?_⟩
  · rw [splitOn_intercalate_of_perm hperm]
    exact hys
  · rw [ofSettings_perm hyx hnodup']
    exact hspec

/-- A value has settings, of different keys. -/
theorem settings_ne_nil {acc : ResourceKeys} {spec : ResourceSpec} (h : acc.toSpec = some spec) :
    spec.settings ≠ [] := by
  intro hnil
  rw [ResourceKeys.settings_of_toSpec h] at hnil
  have hacc : acc = .empty := by
    rw [← acc.ofSettings_settings, hnil]
    rfl
  rw [hacc] at h
  cases h

/-- **A printed value reads back.** -/
theorem fromStr_toStr_of_toSpec {acc : ResourceKeys} {spec : ResourceSpec}
    (h : acc.toSpec = some spec) : fromStr spec.toStr = .ok spec := by
  have hsettings := ResourceKeys.settings_of_toSpec h
  have hread : List.Forall₂ ResourceSetting.Reads (spec.settings.map ResourceSetting.toStr)
      spec.settings := by
    rw [List.forall₂_map_left_iff, List.forall₂_same]
    exact fun x _ => x.reads_toStr
  have hne : spec.settings.map ResourceSetting.toStr ≠ [] := by
    simpa using settings_ne_nil h
  have hfree : ∀ token ∈ spec.settings.map ResourceSetting.toStr, ':' ∉ token := by
    intro token htoken
    obtain ⟨x, -, rfl⟩ := List.mem_map.mp htoken
    exact x.colon_not_mem
  rw [toStr_eq]
  refine fromStr_eq_ok.mpr ⟨ne_nil_of_reads hne hread, spec.settings, ?_, ?_, ?_⟩
  · rw [List.splitOn_intercalate ':' hfree hne]
    exact hread
  · exact (hsettings ▸ acc.sublist_settings).nodup (by decide)
  · rw [hsettings, ResourceKeys.ofSettings_settings]
    exact h

/-- **The canonical text** of an accepted value has the given settings and reads back. -/
theorem canonical_of_fromStr {s : Str} {spec : ResourceSpec} (h : fromStr s = .ok spec) :
    ∃ xs, List.Forall₂ ResourceSetting.Reads (s.splitOn ':') xs ∧ spec.settings.Perm xs ∧
      (spec.settings.map ResourceSetting.key).Sublist [.p, .t, .c, .m, .g] ∧
      fromStr spec.toStr = .ok spec := by
  obtain ⟨-, xs, hxs, hnodup, hspec⟩ := fromStr_eq_ok.mp h
  have hsettings := ResourceKeys.settings_of_toSpec hspec
  have hperm : spec.settings.Perm xs := by
    rw [hsettings]
    have hempty : ResourceKeys.empty.settings = [] := rfl
    have hfoldl := perm_settings_foldl hnodup fun x _ => ResourceKeys.has_empty x.key
    rw [hempty, List.append_nil] at hfoldl
    exact hfoldl
  exact ⟨xs, hxs, hperm, hsettings ▸ (ofSettings xs).sublist_settings,
    fromStr_toStr_of_toSpec hspec⟩

end ResourceSpec

/-- **The parser of resources does not depend on the order of the tokens**: which lists it accepts,
that it reads every permutation of a list as the same value, and the canonical text of the value. -/
theorem resource_spec_order_free (s : Str) :
    ((∃ spec, ResourceSpec.fromStr s = .ok spec) ↔ s ≠ [] ∧
        ∃ xs, List.Forall₂ ResourceSetting.Reads (s.splitOn ':') xs ∧
          (xs.map ResourceSetting.key).Nodup ∧ AllowedKeys (xs.map ResourceSetting.key)) ∧
      (∀ tokens spec, tokens.Perm (s.splitOn ':') →
        (ResourceSpec.fromStr (List.intercalate [':'] tokens) = .ok spec ↔
          ResourceSpec.fromStr s = .ok spec)) ∧
      ∀ spec, ResourceSpec.fromStr s = .ok spec →
        spec.toStr = List.intercalate [':'] (spec.settings.map ResourceSetting.toStr) ∧
        ∃ xs, List.Forall₂ ResourceSetting.Reads (s.splitOn ':') xs ∧ spec.settings.Perm xs ∧
          (spec.settings.map ResourceSetting.key).Sublist [.p, .t, .c, .m, .g] ∧
          ResourceSpec.fromStr spec.toStr = .ok spec := by
  refine ⟨?_, ?_, fun spec hspec => ⟨spec.toStr_eq, ResourceSpec.canonical_of_fromStr hspec⟩⟩
  · simp only [← exists_toSpec_ofSettings, ResourceSpec.fromStr_eq_ok]
    constructor
    · rintro ⟨spec, hs, xs, hxs, hnodup, hspec⟩
      exact ⟨hs, xs, hxs, hnodup, spec, hspec⟩
    · rintro ⟨hs, xs, hxs, hnodup, spec, hspec⟩
      exact ⟨spec, hs, xs, hxs, hnodup, hspec⟩
  · intro tokens spec hperm
    constructor
    · intro h
      have hback : (s.splitOn ':').Perm ((List.intercalate [':'] tokens).splitOn ':') := by
        rw [splitOn_intercalate_of_perm hperm]
        exact hperm.symm
      have hjoin : List.intercalate [':'] (s.splitOn ':') = s := List.intercalate_splitOn ':'
      rw [← hjoin]
      exact ResourceSpec.fromStr_of_perm hback h
    · exact ResourceSpec.fromStr_of_perm hperm

/-- The tokens of `t=8:p=4:m=8G`, which is printed in another order. -/
theorem resource_spec_order_free_hybrid :
    ResourceSpec.fromStr "p=4:m=8G:t=8" = .ok (.cpu ⟨some ⟨4, by decide⟩, some ⟨8, by decide⟩, none,
      some ⟨⟨8, by decide⟩, .giga⟩⟩) := by
  have hperm : (["p=4", "m=8G", "t=8"] : List Str).Perm (("t=8:p=4:m=8G" : Str).splitOn ':') := by
    decide +kernel
  exact ((resource_spec_order_free "t=8:p=4:m=8G").2.1 _ _ hperm).mpr (by decide +kernel)

end Slurm

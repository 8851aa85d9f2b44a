/-
# The specification of an array job

`SlurmArraySpec` is the value of `--array`: a list of indices, ranges and stepped ranges, and a cap
on the tasks that run at once.  Its parser rejects an empty range and the step 0, and it accepts
exactly the well-formed specifications (`array_spec_round_trip`), each as a sentence of a grammar
(`SlurmArraySpec.spells_of_fromStr`).

`expandArrayIndices` lists the indices entry by entry.  It does not merge the entries, so that it
lists an index once for each entry that denotes it (`WellFormed.expand`).
-/
import SlurmRunner.Slurm.Listing
import SlurmRunner.Serde.Reader
import SlurmRunner.Text.Separated
import Mathlib.Data.List.Nodup

namespace Slurm

open Text

/-! ## 1. Specifications

An entry is a single index, a range, or a range with a step; a specification has a list of entries
and may limit how many tasks run at once. -/

/-- One entry of the index list. -/
inductive ArrayIndex where
  | single (i : TaskIndex)
  /-- Both ends are included. -/
  | range (start stop : TaskIndex)
  | stepped (start stop step : TaskIndex)
deriving DecidableEq, Repr

structure SlurmArraySpec where
  indices : List ArrayIndex
  /-- The cap after the `%`. -/
  maxConcurrent : Option UInt32
deriving DecidableEq, Repr

inductive SchemaParseError where
  | parseError (key value : Str)
deriving DecidableEq, Repr

namespace ArrayIndex

/-- `Display`. -/
def toStr : ArrayIndex → Str
  | single i => decimal i.toNat
  | range start stop => decimal start.toNat ++ '-' :: decimal stop.toNat
  | stepped start stop step =>
    decimal start.toNat ++ '-' :: decimal stop.toNat ++ ':' :: decimal step.toNat

/-- The optional step after the colon. -/
def splitStep (s : Str) : Except SchemaParseError (Str × Option TaskIndex) :=
  match splitOnce ':' s with
  | some (r, st) =>
    match parseU32 st with
    | none => .error (.parseError "array_spec/entry" s)
    | some step =>
      if step = 0 then .error (.parseError "array_spec/entry" s) else .ok (r, some step)
  | none => .ok (s, none)

/-- `from_str`. -/
def fromStr (s : Str) : Except SchemaParseError ArrayIndex :=
  let err : Except SchemaParseError ArrayIndex := .error (.parseError "array_spec/entry" s)
  if s = [] then err
  else match splitStep s with
    | .error e => .error e
    | .ok (rangePart, step) =>
      match splitOnce '-' rangePart with
      | some (a, b) =>
        match parseU32 a, parseU32 b with
        | some start, some stop =>
          if stop < start then err
          else match step with
            | some step => .ok (.stepped start stop step)
            | none => .ok (.range start stop)
        | _, _ => err
      | none =>
        if step.isSome then err
        else match parseU32 rangePart with
          | some i => .ok (.single i)
          | none => err

/-- The entry is one that its parser makes. -/
def WellFormed : ArrayIndex → Prop
  | single _ => True
  | range start stop => start ≤ stop
  | stepped start stop step => start ≤ stop ∧ 0 < step

/-- The entry stands for the index `j`. -/
def Denotes : ArrayIndex → TaskIndex → Prop
  | single i, j => j = i
  | range start stop, j => start ≤ j ∧ j ≤ stop
  | stepped start stop step, j => (∃ k, j.toNat = start.toNat + k * step.toNat) ∧ j ≤ stop

end ArrayIndex

namespace SlurmArraySpec

/-- `Display`. -/
def toStr (spec : SlurmArraySpec) : Str :=
  List.intercalate [','] (spec.indices.map ArrayIndex.toStr) ++
    match spec.maxConcurrent with
    | some n => '%' :: decimal n.toNat
    | none => []

/-- The optional cap after the percent sign. -/
def splitCap (s : Str) : Except SchemaParseError (Str × Option UInt32) :=
  match splitOnce '%' s with
  | some (idx, cap) =>
    match parseU32 cap with
    | none => .error (.parseError "array_spec" s)
    | some n => if n = 0 then .error (.parseError "array_spec" s) else .ok (idx, some n)
  | none => .ok (s, none)

/-- `from_str`. -/
def fromStr (s : Str) : Except SchemaParseError SlurmArraySpec :=
  if s = [] then .error (.parseError "array_spec" s)
  else match splitCap s with
    | .error e => .error e
    | .ok (indicesPart, maxConcurrent) =>
      if indicesPart = [] then .error (.parseError "array_spec" s)
      else match (indicesPart.splitOn ',').mapM ArrayIndex.fromStr with
        | .error e => .error e
        | .ok indices => .ok ⟨indices, maxConcurrent⟩

/-- The specification is one that its parser makes. -/
structure WellFormed (spec : SlurmArraySpec) : Prop where
  nonempty : spec.indices ≠ []
  entries : ∀ e ∈ spec.indices, e.WellFormed
  cap : spec.maxConcurrent ≠ some 0

/-- The specification stands for the index `j`. -/
def Denotes (spec : SlurmArraySpec) (j : TaskIndex) : Prop := ∃ e ∈ spec.indices, e.Denotes j

/-- No index is denoted by two of the entries. -/
def EntriesDisjoint (spec : SlurmArraySpec) : Prop :=
  spec.indices.Pairwise fun e e' => ∀ j, ¬ (e.Denotes j ∧ e'.Denotes j)

end SlurmArraySpec

/-! ## 2. Expansion

The loops of the source, over 32-bit numbers.  The next index is added with a check for overflow. -/

/-- `u32::checked_add`. -/
def checkedAdd (a b : UInt32) : Option UInt32 :=
  if a.toNat + b.toNat < 2 ^ 32 then some (a + b) else none

/-- The loop over a stepped range, for at most `fuel` rounds. -/
def steppedFrom (stop step : TaskIndex) : Nat → TaskIndex → Option (List TaskIndex)
  | 0, _ => none
  | fuel + 1, i =>
    if i ≤ stop then
      match checkedAdd i step with
      | some next => (steppedFrom stop step fuel next).map (i :: ·)
      | none => some [i]
    else some []

namespace ArrayIndex

/-- The indices of an entry in their order, if its loop ends within `fuel` rounds. -/
def expandWithin (fuel : Nat) : ArrayIndex → Option (List TaskIndex)
  | single i => some [i]
  | range start stop =>
    some ((List.range' start.toNat (stop.toNat + 1 - start.toNat)).map UInt32.ofNat)
  | stepped start stop step => steppedFrom stop step fuel start

/-- The indices of an entry.  A stepped loop that makes progress ends within `2 ^ 32` rounds; `none`
stands for a loop that runs for ever. -/
def expand (e : ArrayIndex) : Option (List TaskIndex) := e.expandWithin (2 ^ 32)

end ArrayIndex

/-- `expand_array_indices`. -/
def expandArrayIndices (spec : SlurmArraySpec) : Option (List TaskIndex) :=
  (spec.indices.mapM ArrayIndex.expand).map List.flatten

/-! ## 3. What an expansion lists

The loops list an arithmetic progression, in order. -/

/-- A sum that does not overflow is the sum. -/
theorem toNat_checkedAdd {a b next : UInt32} (h : checkedAdd a b = some next) :
    next.toNat = a.toNat + b.toNat := by
  unfold checkedAdd at h
  split at h
  · rename_i hlt
    rw [Option.some.injEq] at h
    rw [← h, UInt32.toNat_add]
    omega
  · cases h

/-- Behind the end of the range nothing is listed. -/
theorem steppedFrom_of_not_le {stop step i : TaskIndex} (h : ¬ i ≤ stop) {fuel : Nat}
    (hfuel : 0 < fuel) : steppedFrom stop step fuel i = some [] := by
  obtain ⟨n, rfl⟩ : ∃ n, fuel = n + 1 := ⟨fuel - 1, by omega⟩
  rw [steppedFrom, if_neg h]

/-- A loop with the step 0 never ends. -/
theorem steppedFrom_zero {stop i : TaskIndex} (h : i ≤ stop) (fuel : Nat) :
    steppedFrom stop 0 fuel i = none := by
  induction fuel with
  | zero => rfl
  | succ fuel ih =>
    have hadd : checkedAdd i 0 = some i := by
      have hlt := i.toNat_lt
      simp [checkedAdd, hlt]
    rw [steppedFrom, if_pos h, hadd]
    simp only [ih, Option.map_none]

/-- A loop with another step lists the multiples of the step from `i` on. -/
theorem exists_steppedFrom {stop step : TaskIndex} (hstep : 0 < step) (fuel : Nat)
    (i : TaskIndex) (hfuel : 2 ^ 32 ≤ fuel + i.toNat) :
    ∃ l, steppedFrom stop step fuel i = some l ∧ l.Pairwise (· < ·) ∧
      ∀ j, j ∈ l ↔ (∃ k, j.toNat = i.toNat + k * step.toNat) ∧ j ≤ stop := by
  have hpos : 0 < step.toNat := UInt32.lt_iff_toNat_lt.mp hstep
  induction fuel generalizing i with
  | zero =>
    have := i.toNat_lt
    omega
  | succ fuel ih =>
    rw [steppedFrom]
    by_cases hi : i ≤ stop
    · rw [if_pos hi]
      cases hadd : checkedAdd i step with
      | none =>
        -- the next index does not fit, so that no index after `i` does
        refine ⟨[i], rfl, List.pairwise_singleton _ _, ?_⟩
        intro j
        rw [List.mem_singleton]
        constructor
        · rintro rfl
          exact ⟨⟨0, by omega⟩, hi⟩
        · rintro ⟨⟨k, hk⟩, -⟩
          have hlt := j.toNat_lt
          have hover : 2 ^ 32 ≤ i.toNat + step.toNat := by
            unfold checkedAdd at hadd
            split at hadd
            · cases hadd
            · omega
          rcases k with _ | k
          · exact UInt32.toNat_inj.mp (by omega)
          · rw [Nat.succ_mul] at hk
            omega
      | some next =>
        have hnext := toNat_checkedAdd hadd
        obtain ⟨l, hl, hsorted, hmem⟩ := ih next (by omega)
        refine ⟨i :: l, by simp only [hl, Option.map_some], ?_, ?_⟩
        · refine List.pairwise_cons.mpr ⟨?_, hsorted⟩
          intro j hj
          obtain ⟨⟨k, hk⟩, -⟩ := (hmem j).mp hj
          exact UInt32.lt_iff_toNat_lt.mpr (by omega)
        · intro j
          rw [List.mem_cons, hmem]
          constructor
          · rintro (rfl | ⟨⟨k, hk⟩, hle⟩)
            · exact ⟨⟨0, by omega⟩, hi⟩
            · refine ⟨⟨k + 1, ?_⟩, hle⟩
              rw [Nat.succ_mul]
              omega
          · rintro ⟨⟨k, hk⟩, hle⟩
            rcases k with _ | k
            · exact .inl (UInt32.toNat_inj.mp (by omega))
            · rw [Nat.succ_mul] at hk
              exact .inr ⟨⟨k, by omega⟩, hle⟩
    · rw [if_neg hi]
      refine ⟨[], rfl, .nil, ?_⟩
      intro j
      constructor
      · intro hj
        cases hj
      · rintro ⟨⟨k, hk⟩, hle⟩
        have hle' := UInt32.le_iff_toNat_le.mp hle
        exact absurd (UInt32.le_iff_toNat_le.mpr (by omega)) hi

namespace ArrayIndex

/-- The indices between two ends. -/
theorem mem_range_iff {start stop j : TaskIndex} :
    j ∈ (List.range' start.toNat (stop.toNat + 1 - start.toNat)).map UInt32.ofNat ↔
      start ≤ j ∧ j ≤ stop := by
  simp only [List.mem_map, List.mem_range'_1, UInt32.le_iff_toNat_le]
  constructor
  · rintro ⟨n, hn, rfl⟩
    have := stop.toNat_lt
    rw [UInt32.toNat_ofNat', Nat.mod_eq_of_lt (by omega)]
    omega
  · intro h
    exact ⟨j.toNat, by omega, UInt32.ofNat_toNat⟩

/-- A range is listed in ascending order. -/
theorem range_sorted (start stop : TaskIndex) :
    ((List.range' start.toNat (stop.toNat + 1 - start.toNat)).map UInt32.ofNat).Pairwise
      (· < ·) := by
  rw [List.pairwise_map]
  have hsorted : (List.range' start.toNat (stop.toNat + 1 - start.toNat)).Pairwise (· < ·) :=
    List.pairwise_lt_range'
  refine hsorted.imp_of_mem ?_
  intro m n hm hn hlt
  have := stop.toNat_lt
  rw [List.mem_range'_1] at hm hn
  rw [UInt32.lt_iff_toNat_lt, UInt32.toNat_ofNat', UInt32.toNat_ofNat',
    Nat.mod_eq_of_lt (by omega), Nat.mod_eq_of_lt (by omega)]
  exact hlt

/-- An entry whose loop does not advance. -/
def Endless : ArrayIndex → Prop
  | stepped start stop step => step = 0 ∧ start ≤ stop
  | _ => False

/-- What any other entry expands to. -/
theorem exists_expand {e : ArrayIndex} (h : ¬ e.Endless) :
    ∃ l, e.expand = some l ∧ l.Pairwise (· < ·) ∧ ∀ j, j ∈ l ↔ e.Denotes j := by
  cases e with
  | single i => exact ⟨[i], rfl, List.pairwise_singleton _ _, fun j => List.mem_singleton⟩
  | range start stop => exact ⟨_, rfl, range_sorted start stop, fun j => mem_range_iff⟩
  | stepped start stop step =>
    by_cases hstep : step = 0
    · -- the loop is not entered
      have hle : ¬ start ≤ stop := fun hle => h ⟨hstep, hle⟩
      refine ⟨[], steppedFrom_of_not_le hle (by omega), .nil, ?_⟩
      intro j
      rw [Denotes, hstep]
      constructor
      · intro hj
        cases hj
      · rintro ⟨⟨k, hk⟩, hj⟩
        obtain rfl : j = start := UInt32.toNat_inj.mp hk
        exact absurd hj hle
    · exact exists_steppedFrom (UInt32.pos_iff_ne_zero.mpr hstep) (2 ^ 32) start (by omega)

/-- A step of zero is not well formed, so no loop over a well-formed entry goes on forever. -/
theorem WellFormed.not_endless {e : ArrayIndex} (h : e.WellFormed) : ¬ e.Endless := by
  cases e with
  | stepped start stop step =>
    rintro ⟨rfl, -⟩
    exact absurd h.2 (by decide)
  | _ => exact id

/-- **A well-formed entry expands** to the indices that it denotes, in ascending order. -/
theorem WellFormed.expand {e : ArrayIndex} (h : e.WellFormed) :
    ∃ l, e.expand = some l ∧ l.Pairwise (· < ·) ∧ ∀ j, j ∈ l ↔ e.Denotes j :=
  exists_expand h.not_endless

/-- A well-formed entry denotes its start. -/
theorem WellFormed.exists_denotes {e : ArrayIndex} (h : e.WellFormed) : ∃ j, e.Denotes j := by
  cases e with
  | single i => exact ⟨i, rfl⟩
  | range start stop => exact ⟨start, UInt32.le_refl start, h⟩
  | stepped start stop step => exact ⟨start, ⟨0, by omega⟩, h.1⟩

end ArrayIndex

/-- The expansion of a list of entries, whose lists follow one another. -/
theorem exists_expansion (indices : List ArrayIndex) (h : ∀ e ∈ indices, e.WellFormed) :
    ∃ ls, indices.mapM ArrayIndex.expand = some ls ∧
      (∀ j, j ∈ ls.flatten ↔ ∃ e ∈ indices, e.Denotes j) ∧
      (ls.flatten.Nodup ↔ indices.Pairwise fun e e' => ∀ j, ¬ (e.Denotes j ∧ e'.Denotes j)) := by
  induction indices with
  | nil => exact ⟨[], rfl, by simp, by simp⟩
  | cons e indices ih =>
    obtain ⟨l, hl, hsorted, hmem⟩ := (h e List.mem_cons_self).expand
    obtain ⟨ls, hls, hmems, hnodups⟩ := ih fun e' he' => h e' (List.mem_cons_of_mem e he')
    have hnodup : l.Nodup := hsorted.imp UInt32.ne_of_lt
    refine ⟨l :: ls, by rw [List.mapM_cons, hl, hls]; rfl, ?_, ?_⟩
    · intro j
      simp only [List.flatten_cons, List.mem_append, hmem, hmems, List.mem_cons,
        exists_eq_or_imp]
    · rw [List.flatten_cons, List.nodup_append, List.pairwise_cons, hnodups]
      constructor
      · rintro ⟨-, hrest, hne⟩
        refine ⟨?_, hrest⟩
        rintro e' he' j ⟨hj, hj'⟩
        exact hne j ((hmem j).mpr hj) j ((hmems j).mpr ⟨e', he', hj'⟩) rfl
      · rintro ⟨hdisjoint, hrest⟩
        refine ⟨hnodup, hrest, ?_⟩
        rintro i hi j hj rfl
        obtain ⟨e', he', hj'⟩ := (hmems i).mp hj
        exact hdisjoint e' he' i ⟨(hmem i).mp hi, hj'⟩

/-- **A well-formed specification expands** to the indices that it denotes; each is listed once
exactly where the entries do not overlap. -/
theorem SlurmArraySpec.WellFormed.expand {spec : SlurmArraySpec} (h : spec.WellFormed) :
    ∃ l, expandArrayIndices spec = some l ∧ l ≠ [] ∧ (∀ j, j ∈ l ↔ spec.Denotes j) ∧
      (l.Nodup ↔ spec.EntriesDisjoint) := by
  obtain ⟨ls, hls, hmem, hnodup⟩ := exists_expansion spec.indices h.entries
  refine ⟨ls.flatten, by rw [expandArrayIndices, hls, Option.map_some], ?_, hmem, hnodup⟩
  obtain ⟨e, he⟩ := List.exists_mem_of_ne_nil spec.indices h.nonempty
  obtain ⟨j, hj⟩ := (h.entries e he).exists_denotes
  exact List.ne_nil_of_mem ((hmem j).mpr ⟨e, he, hj⟩)

/-! ## 4. The grammar

Which texts spell an entry and a specification, over any numerals. -/

/-- `s` spells the entry, with numerals of `N`. -/
inductive ArrayIndex.Spells (N : Str → Nat → Prop) : Str → ArrayIndex → Prop
  | single {a : Str} {i : TaskIndex} (ha : N a i.toNat) : Spells N a (.single i)
  | range {a b : Str} {start stop : TaskIndex} (ha : N a start.toNat) (hb : N b stop.toNat) :
      Spells N (a ++ '-' :: b) (.range start stop)
  | stepped {a b c : Str} {start stop step : TaskIndex} (ha : N a start.toNat) (hb : N b stop.toNat)
      (hc : N c step.toNat) : Spells N (a ++ '-' :: b ++ ':' :: c) (.stepped start stop step)

/-- `s` spells the specification. -/
inductive SlurmArraySpec.Spells (N : Str → Nat → Prop) : Str → SlurmArraySpec → Prop
  | plain {entries : List Str} {indices : List ArrayIndex}
      (h : List.Forall₂ (ArrayIndex.Spells N) entries indices) :
      Spells N (List.intercalate [','] entries) ⟨indices, none⟩
  | capped {entries : List Str} {indices : List ArrayIndex} {d : Str} {cap : UInt32}
      (h : List.Forall₂ (ArrayIndex.Spells N) entries indices) (hcap : N d cap.toNat) :
      Spells N (List.intercalate [','] entries ++ '%' :: d) ⟨indices, some cap⟩

/-! ## 5. What the parser accepts

What the parser accepts is a sentence of the grammar and gives a well-formed specification, and
these are read back from what they print. -/

namespace ArrayIndex

/-- A step that is accepted was spelt after a colon. -/
theorem splitStep_cases {s r : Str} {step : Option TaskIndex} (h : splitStep s = .ok (r, step)) :
    (step = none ∧ s = r) ∨
      ∃ st c, step = some st ∧ s = r ++ ':' :: c ∧ Signed c (UInt32.toNat st) ∧ 0 < st := by
  unfold splitStep at h
  split at h
  · rename_i r' c hsplit
    split at h
    · cases h
    rename_i st hst
    split at h
    · cases h
    · rename_i hne
      cases h
      exact .inr ⟨st, c, rfl, (splitOnce_eq_some_iff.mp hsplit).1, parseU32_eq_some_iff.mp hst,
        UInt32.pos_iff_ne_zero.mpr hne⟩
  · cases h
    exact .inl ⟨rfl, rfl⟩

/-- **What is accepted as an entry** is a sentence, where a numeral may have a sign, and the entry
is well formed. -/
theorem spells_of_fromStr {s : Str} {e : ArrayIndex} (h : fromStr s = .ok e) :
    e.Spells Signed s ∧ e.WellFormed := by
  unfold fromStr at h
  dsimp only at h
  split at h
  · cases h
  split at h
  · cases h
  rename_i r step hstep
  split at h
  · rename_i a b hsplit
    obtain ⟨rfl, -⟩ := splitOnce_eq_some_iff.mp hsplit
    split at h
    · rename_i start stop hstart hstop
      split at h
      · cases h
      rename_i hle
      have hle' : start ≤ stop := UInt32.not_lt.mp hle
      have ha := parseU32_eq_some_iff.mp hstart
      have hb := parseU32_eq_some_iff.mp hstop
      rcases splitStep_cases hstep with ⟨rfl, rfl⟩ | ⟨st, c, rfl, rfl, hc, hpos⟩
      · cases h
        exact ⟨.range ha hb, hle'⟩
      · cases h
        exact ⟨.stepped ha hb hc, hle', hpos⟩
    · cases h
  · split at h
    · cases h
    rename_i hnone
    split at h
    · rename_i i hi
      cases h
      rcases splitStep_cases hstep with ⟨rfl, rfl⟩ | ⟨st, c, rfl, -⟩
      · exact ⟨.single (parseU32_eq_some_iff.mp hi), trivial⟩
      · simp at hnone
    · cases h

/-- A character other than a digit, a hyphen or a colon does not occur in a printed entry. -/
theorem not_mem_toStr {c : Char} (hdigit : c.isDigit = false) (hdash : c ≠ '-') (hcolon : c ≠ ':')
    (e : ArrayIndex) : c ∉ e.toStr := by
  have hnum : ∀ n, c ∉ decimal n := fun n => not_mem_decimal hdigit
  cases e with
  | single i => exact hnum _
  | range start stop => simp [toStr, hnum, hdash]
  | stepped start stop step => simp [toStr, hnum, hdash, hcolon]

theorem toStr_ne_nil (e : ArrayIndex) : e.toStr ≠ [] := by
  cases e with
  | single i => exact decimal_ne_nil _
  | range start stop => simp [toStr]
  | stepped start stop step => simp [toStr]

/-- **Reading what was printed, an entry.** -/
theorem WellFormed.fromStr_toStr {e : ArrayIndex} (h : e.WellFormed) : fromStr e.toStr = .ok e := by
  have hcolon : ∀ n, ':' ∉ decimal n := fun n => not_mem_decimal rfl
  have hdash : ∀ n, '-' ∉ decimal n := fun n => not_mem_decimal rfl
  unfold fromStr
  rw [if_neg e.toStr_ne_nil]
  cases e with
  | single i =>
    have hstep : splitStep (decimal i.toNat) = .ok (decimal i.toNat, none) := by
      rw [splitStep, splitOnce_eq_none (hcolon _)]
    simp only [toStr, hstep, splitOnce_eq_none (hdash _), Option.isSome_none, Bool.false_eq_true,
      if_false, parseU32_decimal]
  | range start stop =>
    have hstep : splitStep (decimal start.toNat ++ '-' :: decimal stop.toNat) =
        .ok (decimal start.toNat ++ '-' :: decimal stop.toNat, none) := by
      rw [splitStep, splitOnce_eq_none (by simp [hcolon])]
    simp only [toStr, hstep, splitOnce_append (hdash _), parseU32_decimal,
      if_neg (UInt32.not_lt.mpr h)]
  | stepped start stop step =>
    have hstep : splitStep (decimal start.toNat ++ '-' :: decimal stop.toNat ++
        ':' :: decimal step.toNat) =
        .ok (decimal start.toNat ++ '-' :: decimal stop.toNat, some step) := by
      rw [splitStep, splitOnce_append (by simp [hcolon])]
      simp only [parseU32_decimal, if_neg (UInt32.pos_iff_ne_zero.mp h.2)]
    simp only [toStr, hstep, splitOnce_append (hdash _), parseU32_decimal,
      if_neg (UInt32.not_lt.mpr h.1)]

end ArrayIndex

namespace SlurmArraySpec

/-- A cap that is accepted was spelt after a percent sign. -/
theorem splitCap_cases {s r : Str} {cap : Option UInt32} (h : splitCap s = .ok (r, cap)) :
    (cap = none ∧ s = r) ∨
      ∃ n d, cap = some n ∧ s = r ++ '%' :: d ∧ Signed d (UInt32.toNat n) ∧ n ≠ 0 := by
  unfold splitCap at h
  split at h
  · rename_i r' d hsplit
    split at h
    · cases h
    rename_i n hn
    split at h
    · cases h
    · rename_i hne
      cases h
      exact .inr ⟨n, d, rfl, (splitOnce_eq_some_iff.mp hsplit).1, parseU32_eq_some_iff.mp hn, hne⟩
  · cases h
    exact .inl ⟨rfl, rfl⟩

/-- **What is accepted** is a sentence, where a numeral may have a sign, and the specification is
well formed. -/
theorem spells_of_fromStr {s : Str} {spec : SlurmArraySpec} (h : fromStr s = .ok spec) :
    spec.Spells Signed s ∧ spec.WellFormed := by
  unfold fromStr at h
  split at h
  · cases h
  split at h
  · cases h
  rename_i r cap hcap
  split at h
  · cases h
  split at h
  · cases h
  rename_i indices hindices
  cases h
  obtain ⟨entries, hne, -, rfl, hread⟩ := mapM_splitOn_eq_ok.mp hindices
  have hspells : List.Forall₂ (ArrayIndex.Spells Signed) entries indices :=
    hread.imp fun _ _ he => (ArrayIndex.spells_of_fromStr he).1
  have hnonempty : indices ≠ [] := by
    rintro rfl
    exact hne (List.forall₂_nil_right_iff.mp hread)
  have hentries : ∀ e ∈ indices, e.WellFormed := by
    intro e he
    obtain ⟨entry, -, hentry⟩ := exists_of_mem_right hread he
    exact (ArrayIndex.spells_of_fromStr hentry).2
  rcases splitCap_cases hcap with ⟨rfl, rfl⟩ | ⟨n, d, rfl, rfl, hd, hpos⟩
  · exact ⟨.plain hspells, hnonempty, hentries, by simp⟩
  · exact ⟨.capped hspells hd, hnonempty, hentries, by simpa using hpos⟩

/-- The parser gives well-formed specifications only. -/
theorem wellFormed_of_fromStr {s : Str} {spec : SlurmArraySpec} (h : fromStr s = .ok spec) :
    spec.WellFormed :=
  (spells_of_fromStr h).2

/-- **Reading what was printed, a specification.** -/
theorem WellFormed.fromStr_toStr {spec : SlurmArraySpec} (h : spec.WellFormed) :
    fromStr spec.toStr = .ok spec := by
  obtain ⟨indices, cap⟩ := spec
  obtain ⟨hne, hentries, hcap⟩ := h
  -- the printed entries, and what the parser makes of them
  have hpercent : ∀ e ∈ indices.map ArrayIndex.toStr, '%' ∉ e := by
    intro e he
    obtain ⟨e', -, rfl⟩ := List.mem_map.mp he
    exact e'.not_mem_toStr rfl (by decide) (by decide)
  have hcomma : ∀ e ∈ indices, ',' ∉ e.toStr :=
    fun e _ => e.not_mem_toStr rfl (by decide) (by decide)
  have hread : ((List.intercalate [','] (indices.map ArrayIndex.toStr)).splitOn ',').mapM
      ArrayIndex.fromStr = .ok indices :=
    mapM_splitOn_intercalate hne hcomma fun e he => (hentries e he).fromStr_toStr
  have hjoined : List.intercalate [','] (indices.map ArrayIndex.toStr) ≠ [] := by
    obtain ⟨e, he⟩ := List.exists_mem_of_ne_nil indices hne
    exact intercalate_ne_nil (List.mem_map_of_mem he) e.toStr_ne_nil
  have hsplit : splitCap (toStr ⟨indices, cap⟩) =
      .ok (List.intercalate [','] (indices.map ArrayIndex.toStr), cap) := by
    have hfree := not_mem_intercalate (by decide : '%' ≠ ',') hpercent
    cases cap with
    | none => simp only [toStr, List.append_nil, splitCap, splitOnce_eq_none hfree]
    | some n =>
      have hn : n ≠ 0 := fun hzero => hcap (congrArg some hzero)
      simp only [toStr, splitCap, splitOnce_append hfree, parseU32_decimal, if_neg hn]
  have hfull : toStr ⟨indices, cap⟩ ≠ [] := by
    intro hnil
    exact hjoined (List.append_eq_nil_iff.mp hnil).1
  rw [fromStr, if_neg hfull, hsplit]
  simp only [if_neg hjoined, hread]

/-! ## 6. The serialised form

A specification is serialised as its text, so it is read back exactly if it is well formed. -/

/-- `Serialize`: the printed text. -/
def serialize (spec : SlurmArraySpec) : Serde.Json := .str spec.toStr

/-- `Deserialize`: a text is parsed. -/
def deserialize : Serde.Reader SlurmArraySpec :=
  fun doc => doc.asStr.bind fun s => (fromStr s).toOption

/-- **A specification reads back from its text if and only if it is well formed**, and so does every
parsed one from its serialised form. -/
theorem array_spec_round_trip (spec : SlurmArraySpec) :
    (fromStr spec.toStr = .ok spec ↔ spec.WellFormed) ∧
      ∀ s, fromStr s = .ok spec → spec.WellFormed ∧ deserialize spec.serialize = some spec := by
  refine ⟨⟨wellFormed_of_fromStr, WellFormed.fromStr_toStr⟩, ?_⟩
  intro s hs
  have hwf := wellFormed_of_fromStr hs
  exact ⟨hwf, congrArg Except.toOption hwf.fromStr_toStr⟩

/-- A sign and leading zeros are not written again. -/
theorem array_spec_round_trip_sign :
    deserialize (serialize ⟨[.stepped 0 15 4], some 2⟩) = some ⟨[.stepped 0 15 4], some 2⟩ :=
  ((array_spec_round_trip _).2 "+0-015:4%2" (by decide +kernel)).2

end SlurmArraySpec

end Slurm

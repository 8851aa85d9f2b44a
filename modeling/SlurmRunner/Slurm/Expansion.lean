/-
# The expansion of an array specification

What `expand_array_indices` makes of a specification: for one that the parser accepts, the
progressions of its entries one after the other (`expand_denotes`).  A specification can also be
built without the parser.  Its expansion ends unless an entry counts in steps of zero
(`expand_terminates_iff`), which only the parser rejects.
-/
import SlurmRunner.Slurm.ArraySpec
import Mathlib.Data.Set.Card

namespace Slurm

open Text

/-! ## 1. The loops with a bound on their rounds

A loop is given as many rounds as there are 32-bit numbers, and uses them up only if it does not
end. -/

/-- `expand_array_indices`, if each of its loops ends within `fuel` rounds. -/
def expandWithin (fuel : Nat) (spec : SlurmArraySpec) : Option (List TaskIndex) :=
  (spec.indices.mapM (ArrayIndex.expandWithin fuel)).map List.flatten

/-- The loops are given as many rounds as one that ends can need. -/
theorem expandArrayIndices_eq (spec : SlurmArraySpec) :
    expandArrayIndices spec = expandWithin (2 ^ 32) spec := rfl

namespace ArrayIndex

/-- The loop does not end, however many rounds it is given. -/
theorem Endless.expandWithin {e : ArrayIndex} (h : e.Endless) (fuel : Nat) :
    e.expandWithin fuel = none := by
  cases e with
  | stepped start stop step =>
    obtain ⟨rfl, hle⟩ := h
    exact steppedFrom_zero hle fuel
  | _ => exact h.elim

/-- The indices of an entry, as a progression. -/
def sequence : ArrayIndex → List Nat
  | single i => [i.toNat]
  | range start stop => List.range' start.toNat (stop.toNat + 1 - start.toNat)
  | stepped start stop step =>
    List.range' start.toNat ((stop.toNat - start.toNat) / step.toNat + 1) step.toNat

/-- The indices of a well-formed entry are ascending. -/
theorem WellFormed.sequence_sorted {e : ArrayIndex} (h : e.WellFormed) :
    e.sequence.Pairwise (· < ·) := by
  cases e with
  | single i => exact List.pairwise_singleton _ _
  | range start stop => exact List.pairwise_lt_range'
  | stepped start stop step => exact List.pairwise_lt_range' _ (UInt32.lt_iff_toNat_lt.mp h.2)

/-- A number that does not exceed an index is an index. -/
theorem exists_toNat_eq {stop : TaskIndex} {n : Nat} (h : n ≤ stop.toNat) :
    ∃ j : TaskIndex, j.toNat = n := by
  have hstop := stop.toNat_lt
  refine ⟨UInt32.ofNat n, ?_⟩
  rw [UInt32.toNat_ofNat', Nat.mod_eq_of_lt (by omega)]

/-- The progression of an entry has the indices that the entry denotes. -/
theorem WellFormed.mem_sequence {e : ArrayIndex} (h : e.WellFormed) {n : Nat} :
    n ∈ e.sequence ↔ ∃ j, e.Denotes j ∧ j.toNat = n := by
  cases e with
  | single i =>
    simp only [sequence, Denotes, List.mem_singleton, exists_eq_left]
    exact eq_comm
  | range start stop =>
    simp only [sequence, Denotes, List.mem_range'_1, UInt32.le_iff_toNat_le]
    constructor
    · intro hn
      obtain ⟨j, rfl⟩ := exists_toNat_eq (show n ≤ stop.toNat by omega)
      exact ⟨j, ⟨hn.1, by omega⟩, rfl⟩
    · rintro ⟨j, hj, rfl⟩
      omega
  | stepped start stop step =>
    have hle := UInt32.le_iff_toNat_le.mp h.1
    have hpos := UInt32.lt_iff_toNat_lt.mp h.2
    -- the last round is the one that still fits before the end
    have hrounds : ∀ k, k < (stop.toNat - start.toNat) / step.toNat + 1 ↔
        start.toNat + k * step.toNat ≤ stop.toNat := by
      intro k
      rw [Nat.lt_succ_iff, Nat.le_div_iff_mul_le hpos]
      omega
    simp only [sequence, Denotes, List.mem_range', hrounds, UInt32.le_iff_toNat_le]
    constructor
    · rintro ⟨k, hk, rfl⟩
      obtain ⟨j, hj⟩ := exists_toNat_eq hk
      exact ⟨j, ⟨⟨k, hj⟩, hj ▸ hk⟩, by rw [hj, Nat.mul_comm]⟩
    · rintro ⟨j, ⟨⟨k, hk⟩, hj⟩, rfl⟩
      exact ⟨k, hk ▸ hj, by rw [hk, Nat.mul_comm]⟩

/-- **The loop of an entry counts the progression.** -/
theorem WellFormed.expand_sequence {e : ArrayIndex} (h : e.WellFormed) :
    ∃ l, e.expand = some l ∧ l.map UInt32.toNat = e.sequence := by
  obtain ⟨l, hl, hsorted, hmem⟩ := exists_expand h.not_endless
  refine ⟨l, hl, ?_⟩
  have hsorted' : (l.map UInt32.toNat).Pairwise (· < ·) :=
    List.pairwise_map.mpr (hsorted.imp UInt32.lt_iff_toNat_lt.mp)
  have hperm : (l.map UInt32.toNat).Perm e.sequence := by
    refine (List.perm_ext_iff_of_nodup (hsorted'.imp Nat.ne_of_lt)
      (h.sequence_sorted.imp Nat.ne_of_lt)).mpr ?_
    intro n
    simp only [List.mem_map, hmem, h.mem_sequence]
  exact hperm.eq_of_pairwise (fun _ _ _ _ hab hba => absurd hab (Nat.lt_asymm hba)) hsorted'
    h.sequence_sorted

end ArrayIndex

/-! ## 2. What an accepted specification expands to

The entries in their order, each with its sequence. -/

/-- If each entry has an expansion, then they follow one another. -/
theorem mapM_of_forall {α β : Type} {f : α → Option β} {g : α → β} {l : List α}
    (h : ∀ a ∈ l, f a = some (g a)) : l.mapM f = some (l.map g) := by
  induction l with
  | nil => rfl
  | cons a l ih =>
    rw [List.mapM_cons, h a List.mem_cons_self, ih fun b hb => h b (List.mem_cons_of_mem a hb)]
    rfl

/-- The expansion of a specification whose loops end. -/
theorem expandArrayIndices_of_forall {spec : SlurmArraySpec} {g : ArrayIndex → List TaskIndex}
    (h : ∀ e ∈ spec.indices, e.expand = some (g e)) :
    expandArrayIndices spec = some (spec.indices.flatMap g) := by
  rw [expandArrayIndices, mapM_of_forall h, Option.map_some, List.flatMap_def]

/-- **The expansion denotes the specification**: the progressions of the entries in their order,
each ascending, without regard to the cap. -/
theorem expand_denotes {s : Str} {spec : SlurmArraySpec} (h : SlurmArraySpec.fromStr s = .ok spec) :
    ∃ l, expandArrayIndices spec = some l ∧
      l.map UInt32.toNat = spec.indices.flatMap ArrayIndex.sequence ∧
      (∀ e ∈ spec.indices, e.sequence.Pairwise (· < ·) ∧
        ∀ n, n ∈ e.sequence ↔ ∃ j, e.Denotes j ∧ j.toNat = n) ∧
      l ≠ [] ∧ ∀ cap, expandArrayIndices { spec with maxConcurrent := cap } = some l := by
  have hwf := SlurmArraySpec.wellFormed_of_fromStr h
  have hentry : ∀ e ∈ spec.indices, e.expand = some (e.expand.getD []) ∧
      (e.expand.getD []).map UInt32.toNat = e.sequence := by
    intro e he
    obtain ⟨l, hl, hseq⟩ := (hwf.entries e he).expand_sequence
    simp only [hl, Option.getD_some]
    exact ⟨trivial, hseq⟩
  have hexpand := expandArrayIndices_of_forall fun e he => (hentry e he).1
  refine ⟨_, hexpand, ?_, ?_, ?_, fun cap => hexpand⟩
  · rw [List.map_flatMap]
    exact List.flatMap_congr fun e he => (hentry e he).2
  · intro e he
    exact ⟨(hwf.entries e he).sequence_sorted, fun n => (hwf.entries e he).mem_sequence⟩
  · obtain ⟨l, hl, hne, -⟩ := hwf.expand
    rw [hexpand, Option.some.injEq] at hl
    exact hl ▸ hne

/-- The last step would not fit. -/
theorem expand_denotes_end :
    ∃ l, expandArrayIndices ⟨[.stepped 4294967290 4294967295 4, .single 7], some 2⟩ = some l ∧
      l.map UInt32.toNat = [4294967290, 4294967294, 7] := by
  have hparse : SlurmArraySpec.fromStr "4294967290-4294967295:4,7%2" =
      .ok ⟨[.stepped 4294967290 4294967295 4, .single 7], some 2⟩ := by
    decide +kernel
  obtain ⟨l, hl, hseq, -⟩ := expand_denotes hparse
  exact ⟨l, hl, hseq⟩

/-! ## 3. When an expansion ends

Exactly if no entry is a range that is not empty with a step of zero. -/

/-- One part that fails makes the whole fail. -/
theorem mapM_eq_none_of_mem {α β : Type} {f : α → Option β} {l : List α} {a : α} (ha : a ∈ l)
    (h : f a = none) : l.mapM f = none := by
  induction l with
  | nil => cases ha
  | cons b l ih =>
    rw [List.mapM_cons]
    rcases List.mem_cons.mp ha with rfl | hl
    · rw [h]
      rfl
    · rw [ih hl]
      cases f b with
      | none => rfl
      | some y => rfl

/-- A list of the indices that an entry denotes is as long as they are many. -/
theorem length_eq_ncard {l : List TaskIndex} {e : ArrayIndex} (hnodup : l.Nodup)
    (hmem : ∀ j, j ∈ l ↔ e.Denotes j) : l.length = Set.ncard {j | e.Denotes j} := by
  have hset : {j | e.Denotes j} = (l.toFinset : Set TaskIndex) := by
    ext j
    simp [hmem]
  rw [hset, Set.ncard_coe_finset, List.toFinset_card_of_nodup hnodup]

/-- **The expansion ends, and is no longer than the entries have indices,** if and only if no entry
counts in steps of zero from a start that is not after its end. -/
theorem expand_terminates_iff (spec : SlurmArraySpec) :
    (∃ fuel l, expandWithin fuel spec = some l ∧
        l.length ≤ (spec.indices.map fun e => Set.ncard {j | e.Denotes j}).sum) ↔
      ∀ start stop, start ≤ stop → .stepped start stop 0 ∉ spec.indices := by
  constructor
  · rintro ⟨fuel, l, hl, -⟩ start stop hle hmem
    have hendless : ArrayIndex.Endless (.stepped start stop 0) := ⟨rfl, hle⟩
    rw [expandWithin, mapM_eq_none_of_mem hmem (hendless.expandWithin fuel)] at hl
    cases hl
  · intro h
    have hentry : ∀ e ∈ spec.indices, e.expand = some (e.expand.getD []) ∧
        (e.expand.getD []).length = Set.ncard {j | e.Denotes j} := by
      intro e he
      have hends : ¬ e.Endless := by
        cases e with
        | stepped start stop step =>
          rintro ⟨rfl, hle⟩
          exact h start stop hle he
        | _ => exact id
      obtain ⟨l, hl, hsorted, hmem⟩ := ArrayIndex.exists_expand hends
      simp only [hl, Option.getD_some]
      exact ⟨trivial, length_eq_ncard (hsorted.imp UInt32.ne_of_lt) hmem⟩
    have hexpand := expandArrayIndices_of_forall fun e he => (hentry e he).1
    refine ⟨2 ^ 32, _, (expandArrayIndices_eq spec).symm.trans hexpand, ?_⟩
    rw [List.length_flatMap]
    exact le_of_eq (congrArg List.sum (List.map_congr_left fun e he => (hentry e he).2))

/-- A range in steps of zero, which can be built but not parsed, is expanded for ever. -/
theorem expand_runs_for_ever : ¬ ∃ fuel l, expandWithin fuel ⟨[.stepped 0 5 0], none⟩ = some l := by
  rintro ⟨fuel, l, hl⟩
  have hendless : ArrayIndex.Endless (.stepped 0 5 0) := ⟨rfl, by decide⟩
  rw [expandWithin, mapM_eq_none_of_mem List.mem_cons_self (hendless.expandWithin fuel)] at hl
  cases hl

end Slurm

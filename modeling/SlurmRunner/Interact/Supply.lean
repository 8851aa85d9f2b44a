/-
# Supplies of new values

What gives out a new value each time it is asked, as a generator of identifiers does.  Which values
these are is left open; all that is known of them is that none comes twice.
-/
import Mathlib.Data.List.Nodup

namespace Interact

/-- The values that are given out, one after another.  No value comes twice. -/
structure Supply (α : Type) where
  next : Nat → α
  distinct : Function.Injective next

namespace Supply

variable {α : Type} (s : Supply α) {i j k n : Nat} {a : α}

/-- The numbers from `m` on, in their order. -/
def countFrom (m : Nat) : Supply Nat := ⟨fun k => m + k, fun _ _ h => Nat.add_left_cancel h⟩

/-- When `n` values have been given out, `a` is still to come. -/
def Ahead (n : Nat) (a : α) : Prop := ∃ k, n ≤ k ∧ s.next k = a

variable {s}

/-- The next one is still ahead. -/
theorem ahead_next : s.Ahead n (s.next n) := ⟨n, Nat.le_refl n, rfl⟩

/-- What is ahead later is ahead earlier. -/
theorem Ahead.of_le (h : s.Ahead n a) (hk : k ≤ n) : s.Ahead k a := by
  obtain ⟨j, hj, rfl⟩ := h
  exact ⟨j, Nat.le_trans hk hj, rfl⟩

/-- What has been given out does not come again. -/
theorem not_ahead_next (hk : k < n) : ¬ s.Ahead n (s.next k) := by
  rintro ⟨j, hj, heq⟩
  cases s.distinct heq
  omega

/-- What is not to come any more is another value than the next one. -/
theorem ne_next_of_not_ahead (h : ¬ s.Ahead n a) : a ≠ s.next n := by
  rintro rfl
  exact h ahead_next

/-- What counts from `m` on never gives a smaller number. -/
theorem not_ahead_countFrom {m : Nat} (hk : k < m) : ¬ (countFrom m).Ahead 0 k := by
  rintro ⟨j, -, heq⟩
  have heq : m + j = k := heq
  omega

variable (s) in
/-- The `n` values from the `i`-th one on. -/
def block (i n : Nat) : List α := (List.range' i n).map s.next

/-- A block is its first value and the block after that. -/
theorem block_succ : s.block i (n + 1) = s.next i :: s.block (i + 1) n := rfl

/-- No value comes twice in a block. -/
theorem nodup_block : (s.block i n).Nodup := List.Nodup.map s.distinct List.nodup_range'

end Supply

end Interact

/-
# Decimal numbers in text

Printing is Lean's own `Nat.toDigits`; reading is `str::parse` of Rust's integer types, which
also accepts a leading plus sign and leading zeros.
-/
import Mathlib.Algebra.Group.Int.Defs
import Mathlib.Algebra.Group.Nat.Defs
import Mathlib.Data.List.Basic
import SlurmRunner.Text.Split

namespace Text

/-! ## 1. Printing and reading

Decimal numbers, as they are printed and as `parse` reads them, which allows a plus sign. -/

/-- `Display` of an unsigned integer. -/
def decimal (n : Nat) : Str := Nat.toDigits 10 n

/-- The value of a non-empty string of decimal digits. -/
def parseDigits (s : Str) : Option Nat :=
  if s ≠ [] ∧ s.all Char.isDigit then some (Nat.ofDigitChars 10 s 0) else none

/-- `str::parse` of an unsigned type with values below `bound`. -/
def parseUnsigned (bound : Nat) (s : Str) : Option Nat :=
  let digits := match s with
    | '+' :: ds => ds
    | ds => ds
  (parseDigits digits).filter (· < bound)

/-- `str::parse::<u64>`. -/
def parseU64 (s : Str) : Option UInt64 := (parseUnsigned (2 ^ 64) s).map UInt64.ofNat

/-- `str::parse::<u32>`. -/
def parseU32 (s : Str) : Option UInt32 := (parseUnsigned (2 ^ 32) s).map UInt32.ofNat

/-- `str::parse::<u16>`. -/
def parseU16 (s : Str) : Option UInt16 := (parseUnsigned (2 ^ 16) s).map UInt16.ofNat

/-- `str::parse::<u8>`. -/
def parseU8 (s : Str) : Option UInt8 := (parseUnsigned (2 ^ 8) s).map UInt8.ofNat

/-- `str::parse::<i32>`. -/
def parseI32 (s : Str) : Option Int :=
  match s with
  | '-' :: ds => ((parseDigits ds).filter (· ≤ 2 ^ 31)).map fun n => -(n : Int)
  | s => (parseUnsigned (2 ^ 31) s).map Int.ofNat

/-! ## 2. What is printed

A number is printed as digits and read back. -/

theorem isDigit_of_mem_decimal {n : Nat} {c : Char} (h : c ∈ decimal n) : c.isDigit = true :=
  Nat.isDigit_of_mem_toDigits (by decide) (by decide) h

theorem decimal_ne_nil (n : Nat) : decimal n ≠ [] := Nat.toDigits_ne_nil

/-- A character that is no digit does not occur in a printed number. -/
theorem not_mem_decimal {n : Nat} {c : Char} (h : c.isDigit = false) : c ∉ decimal n := by
  intro hc
  rw [isDigit_of_mem_decimal hc] at h
  cases h

/-- What is printed is read back. -/
theorem parseDigits_decimal (n : Nat) : parseDigits (decimal n) = some n := by
  have hall : (decimal n).all Char.isDigit = true :=
    List.all_eq_true.mpr fun c hc => isDigit_of_mem_decimal hc
  rw [parseDigits, if_pos ⟨decimal_ne_nil n, hall⟩]
  exact congrArg some Nat.ofDigitChars_ten_toDigits

/-- A printed number does not start with a sign. -/
theorem decimal_eq_cons (n : Nat) : ∃ c cs, decimal n = c :: cs ∧ c.isDigit = true := by
  cases h : decimal n with
  | nil => exact absurd h (decimal_ne_nil n)
  | cons c cs => exact ⟨c, cs, rfl, isDigit_of_mem_decimal (h ▸ List.mem_cons_self)⟩

theorem parseUnsigned_decimal {bound n : Nat} (h : n < bound) :
    parseUnsigned bound (decimal n) = some n := by
  obtain ⟨c, cs, hc, hd⟩ := decimal_eq_cons n
  have hsign : (match decimal n with | '+' :: ds => ds | ds => ds) = decimal n := by
    rw [hc]
    split
    · rename_i ds heq
      simp only [List.cons.injEq] at heq
      rw [heq.1] at hd
      exact absurd hd (by decide)
    · rfl
  simp only [parseUnsigned, hsign, parseDigits_decimal, Option.filter_some]
  simp [h]

/-- **Reading what was printed, `u64`.** -/
@[simp] theorem parseU64_decimal (n : UInt64) : parseU64 (decimal n.toNat) = some n := by
  rw [parseU64, parseUnsigned_decimal n.toNat_lt]
  simp

/-- **Reading what was printed, `u32`.** -/
@[simp] theorem parseU32_decimal (n : UInt32) : parseU32 (decimal n.toNat) = some n := by
  rw [parseU32, parseUnsigned_decimal n.toNat_lt]
  simp

/-- A string with a character that is neither a digit nor a sign is no number. -/
theorem parseU64_eq_none {s : Str} {c : Char} (hc : c ∈ s) (hd : c.isDigit = false)
    (hplus : c ≠ '+') : parseU64 s = none := by
  have hdigits : ∀ ds : Str, c ∈ ds → parseDigits ds = none := by
    intro ds hmem
    refine if_neg fun h => ?_
    rw [List.all_eq_true.mp h.2 c hmem] at hd
    cases hd
  have hstrip : c ∈ (match s with | '+' :: ds => ds | ds => ds) := by
    split
    · exact (List.mem_cons.mp hc).resolve_left hplus
    · exact hc
  simp [parseU64, parseUnsigned, hdigits _ hstrip]

/-! ## 3. Numerals

`Digits` and `Signed` say which number a text stands for, without or with a sign; the parsers accept
just these. -/

/-- `s` is a non-empty string of decimal digits, with the value `n`. -/
def Digits (s : Str) (n : Nat) : Prop := parseDigits s = some n

/-- `s` is such a string, possibly after a plus sign. -/
def Signed (s : Str) (n : Nat) : Prop := Digits s n ∨ ∃ ds, s = '+' :: ds ∧ Digits ds n

/-- A sign may be left out. -/
theorem Digits.signed {s : Str} {n : Nat} (h : Digits s n) : Signed s n := .inl h

theorem digits_decimal (n : Nat) : Digits (decimal n) n := parseDigits_decimal n

theorem Digits.isDigit {s : Str} {n : Nat} (h : Digits s n) {c : Char} (hc : c ∈ s) :
    c.isDigit = true := by
  unfold Digits parseDigits at h
  split at h
  · rename_i hs
    exact List.all_eq_true.mp hs.2 c hc
  · cases h

theorem Digits.ne_nil {s : Str} {n : Nat} (h : Digits s n) : s ≠ [] := by
  rintro rfl
  cases h

theorem Digits.not_mem {s : Str} {n : Nat} (h : Digits s n) {c : Char} (hc : c.isDigit = false) :
    c ∉ s := by
  intro hmem
  rw [h.isDigit hmem] at hc
  cases hc

theorem Digits.plus_not_mem {s : Str} {n : Nat} (h : Digits s n) : '+' ∉ s := h.not_mem rfl

/-- A signed numeral has nothing but digits and the sign. -/
theorem Signed.not_mem {s : Str} {n : Nat} (h : Signed s n) {c : Char} (hc : c.isDigit = false)
    (hplus : c ≠ '+') : c ∉ s := by
  rcases h with h | ⟨ds, rfl, h⟩
  · exact h.not_mem hc
  · simp [hplus, h.not_mem hc]

/-- Without a sign it is a string of digits. -/
theorem Signed.digits {s : Str} {n : Nat} (h : Signed s n) (hplus : '+' ∉ s) : Digits s n := by
  rcases h with h | ⟨ds, rfl, -⟩
  · exact h
  · simp at hplus

/-- The parser of an unsigned type reads the signed numerals of its values. -/
theorem parseUnsigned_eq_some_iff {bound n : Nat} {s : Str} :
    parseUnsigned bound s = some n ↔ Signed s n ∧ n < bound := by
  have hfilter : parseUnsigned bound s = some n ↔
      Digits (match s with | '+' :: ds => ds | ds => ds) n ∧ n < bound := by
    simp [parseUnsigned, Digits, Option.filter_eq_some_iff]
  rw [hfilter]
  refine and_congr_left fun _ => ?_
  split
  · rename_i ds
    have hsign : ¬ Digits ('+' :: ds) n := fun h => h.plus_not_mem List.mem_cons_self
    simp [Signed, hsign]
  · rename_i hsign
    constructor
    · exact .inl
    · rintro (h | ⟨ds, rfl, -⟩)
      · exact h
      · exact absurd rfl (hsign ds)

/-- The parser of a fixed-width type reads the signed numerals of its values. -/
theorem map_parseUnsigned_eq_some_iff {α : Type} {bound : Nat} {ofNat : Nat → α} {toNat : α → Nat}
    (hlt : ∀ i, toNat i < bound) (hto : ∀ n, n < bound → toNat (ofNat n) = n)
    (hof : ∀ i, ofNat (toNat i) = i) {s : Str} {i : α} :
    (parseUnsigned bound s).map ofNat = some i ↔ Signed s (toNat i) := by
  rw [Option.map_eq_some_iff]
  constructor
  · rintro ⟨n, hn, rfl⟩
    obtain ⟨hs, hbound⟩ := parseUnsigned_eq_some_iff.mp hn
    rw [hto n hbound]
    exact hs
  · intro h
    exact ⟨toNat i, parseUnsigned_eq_some_iff.mpr ⟨h, hlt i⟩, hof i⟩

theorem parseU64_eq_some_iff {s : Str} {i : UInt64} : parseU64 s = some i ↔ Signed s i.toNat :=
  map_parseUnsigned_eq_some_iff UInt64.toNat_lt (fun _ => UInt64.toNat_ofNat_of_lt')
    fun _ => UInt64.ofNat_toNat

/-- A printed number is read as a `u64` if it is one. -/
theorem parseU64_decimal_iff {n : Nat} {j : UInt64} :
    parseU64 (decimal n) = some j ↔ n = j.toNat := by
  constructor
  · intro h
    have hdigits : Digits (decimal n) j.toNat :=
      (parseU64_eq_some_iff.mp h).digits (not_mem_decimal rfl)
    exact Option.some.inj ((digits_decimal n).symm.trans hdigits)
  · rintro rfl
    exact parseU64_decimal j

theorem parseU32_eq_some_iff {s : Str} {i : UInt32} : parseU32 s = some i ↔ Signed s i.toNat :=
  map_parseUnsigned_eq_some_iff UInt32.toNat_lt (fun _ => UInt32.toNat_ofNat_of_lt')
    fun _ => UInt32.ofNat_toNat

theorem parseU16_eq_some_iff {s : Str} {i : UInt16} : parseU16 s = some i ↔ Signed s i.toNat :=
  map_parseUnsigned_eq_some_iff UInt16.toNat_lt (fun _ => UInt16.toNat_ofNat_of_lt')
    fun _ => UInt16.ofNat_toNat

theorem parseU8_eq_some_iff {s : Str} {i : UInt8} : parseU8 s = some i ↔ Signed s i.toNat :=
  map_parseUnsigned_eq_some_iff UInt8.toNat_lt (fun _ => UInt8.toNat_ofNat_of_lt')
    fun _ => UInt8.ofNat_toNat

end Text

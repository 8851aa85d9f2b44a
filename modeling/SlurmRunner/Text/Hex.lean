/-
# Hexadecimal numbers in text

The last digits of a number, as `{:0k$x}` prints them when the number has at most `k`, and the
number that digits stand for.
-/
import Mathlib.Tactic.Ring
import SlurmRunner.Text.Split

namespace Text

/-- The last `k` hexadecimal digits of `n`. -/
def hex : Nat → Nat → Str
  | 0, _ => []
  | k + 1, n => hex k (n / 16) ++ [Nat.digitChar (n % 16)]

/-- The value of a hexadecimal digit in lower case. -/
def hexValue (c : Char) : Nat := if c.isDigit then c.toNat - 48 else c.toNat - 87

/-- The digits `s` after those of `acc`. -/
def readHex (acc : Nat) (s : Str) : Nat := s.foldl (fun n c => n * 16 + hexValue c) acc

/-- A digit has its value. -/
theorem hexValue_digitChar : ∀ d < 16, hexValue (Nat.digitChar d) = d := by decide

theorem digitChar_ne_hyphen : ∀ d < 16, Nat.digitChar d ≠ '-' := by decide

/-- Digits are read one after another. -/
theorem readHex_append (acc : Nat) (s t : Str) :
    readHex acc (s ++ t) = readHex (readHex acc s) t := List.foldl_append

/-- What is read from the last `k` digits of a number. -/
theorem readHex_hex (acc k n : Nat) : readHex acc (hex k n) = acc * 16 ^ k + n % 16 ^ k := by
  induction k generalizing n with
  | zero => simp [hex, readHex, Nat.mod_one]
  | succ k ih =>
    have hdigit : ∀ m, readHex m [Nat.digitChar (n % 16)] = m * 16 + n % 16 := fun m => by
      change m * 16 + hexValue (Nat.digitChar (n % 16)) = _
      rw [hexValue_digitChar _ (Nat.mod_lt n (by omega))]
    have hmod : n % 16 ^ (k + 1) = n / 16 % 16 ^ k * 16 + n % 16 := by
      rw [Nat.pow_succ', Nat.mod_mul]
      omega
    rw [hex, readHex_append, ih, hdigit, hmod, Nat.pow_succ]
    ring

/-- The digits have no hyphen among them. -/
theorem filter_hex (k n : Nat) : (hex k n).filter (· ≠ '-') = hex k n := by
  induction k generalizing n with
  | zero => rfl
  | succ k ih =>
    have hdigit : Nat.digitChar (n % 16) ≠ '-' :=
      digitChar_ne_hyphen _ (Nat.mod_lt n (by omega))
    have hlast : [Nat.digitChar (n % 16)].filter (· ≠ '-') = [Nat.digitChar (n % 16)] :=
      List.filter_cons_of_pos (decide_eq_true hdigit)
    rw [hex, List.filter_append, ih, hlast]

/-- Digits have no hyphen among them. -/
theorem filter_hex_hyphen (k n : Nat) (rest : Str) :
    (hex k n ++ '-' :: rest).filter (· ≠ '-') = hex k n ++ rest.filter (· ≠ '-') := by
  rw [List.filter_append, filter_hex, List.filter_cons_of_neg (by simp)]

end Text

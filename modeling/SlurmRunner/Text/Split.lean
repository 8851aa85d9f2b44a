/-
# Text as a list of characters

Strings are lists of characters, so that every function on them is a structural recursion.
The functions of this module are those of the Rust standard library on `str` that a parser of
command output needs: lines, words, pieces between separators, trimming and searching.
-/
import Mathlib.Data.List.Basic
import Mathlib.Data.List.DropRight

namespace Text

/-- A string. -/
abbrev Str := List Char

instance : Coe String Str := ⟨String.toList⟩

/-! ## 1. Characters

White space as Rust has it. -/

/-- `char::is_whitespace`: the Unicode property `White_Space`. -/
def isWhitespace (c : Char) : Bool :=
  let n := c.toNat
  (9 ≤ n && n ≤ 13) || n == 0x20 || n == 0x85 || n == 0xA0 || n == 0x1680 ||
    (0x2000 ≤ n && n ≤ 0x200A) || n == 0x2028 || n == 0x2029 || n == 0x202F || n == 0x205F ||
    n == 0x3000

/-- `str::to_ascii_uppercase`. -/
def toAsciiUppercase (s : Str) : Str := s.map Char.toUpper

/-! ## 2. Splitting

The functions of Rust's `str`, on lists of characters. -/

/-- A line without its terminator: a carriage return before the newline belongs to it. -/
def chomp (line : Str) : Str :=
  if line.getLast? = some '\r' then line.dropLast else line

/-- The lines of `s`, where `cur` is the part of the current line already read. -/
def linesFrom (cur : Str) : Str → List Str
  | [] => if cur = [] then [] else [cur]
  | c :: cs => if c = '\n' then chomp cur :: linesFrom [] cs else linesFrom (cur ++ [c]) cs

/-- `str::lines`: a final newline is optional, and a carriage return that no newline follows
stays in its line. -/
def lines (s : Str) : List Str := linesFrom [] s

/-- `str::split_whitespace`. -/
def splitWhitespace (s : Str) : List Str :=
  (s.splitOnP isWhitespace).filter (· ≠ [])

/-- `str::split_once` at a character. -/
def splitOnce (c : Char) : Str → Option (Str × Str)
  | [] => none
  | x :: xs => if x = c then some ([], xs) else (splitOnce c xs).map fun p => (x :: p.1, p.2)

/-- `str::split_once` at a string. -/
def splitOnceStr (pat : Str) : Str → Option (Str × Str)
  | [] => if pat = [] then some ([], []) else none
  | c :: cs =>
    if pat.isPrefixOf (c :: cs) then some ([], (c :: cs).drop pat.length)
    else (splitOnceStr pat cs).map fun p => (c :: p.1, p.2)

/-- `str::splitn` at a character: at most `n` pieces, the last of them unsplit. -/
def splitN (c : Char) : Nat → Str → List Str
  | 0, _ => []
  | 1, s => [s]
  | n + 2, s =>
    match splitOnce c s with
    | none => [s]
    | some (a, b) => a :: splitN c (n + 1) b

/-- `str::trim`. -/
def trim (s : Str) : Str :=
  ((s.dropWhile isWhitespace).reverse.dropWhile isWhitespace).reverse

/-- `str::contains` of a string. -/
def contains (pat : Str) : Str → Bool
  | [] => pat.isEmpty
  | c :: cs => pat.isPrefixOf (c :: cs) || contains pat cs

/-- `str::strip_prefix`. -/
def stripStart (pat s : Str) : Option Str :=
  if pat.isPrefixOf s then some (s.drop pat.length) else none

/-! ## 3. Facts about the pieces

What a split gives on a text that is put together with its separator. -/

theorem splitOnce_eq_none {c : Char} {s : Str} (h : c ∉ s) : splitOnce c s = none := by
  induction s with
  | nil => rfl
  | cons x xs ih =>
    simp only [List.mem_cons, not_or] at h
    rw [splitOnce, if_neg (Ne.symm h.1), ih h.2]
    rfl

/-- The split is at the first separator. -/
theorem splitOnce_append {c : Char} {a : Str} (h : c ∉ a) (b : Str) :
    splitOnce c (a ++ c :: b) = some (a, b) := by
  induction a with
  | nil => simp [splitOnce]
  | cons x xs ih =>
    simp only [List.mem_cons, not_or] at h
    rw [List.cons_append, splitOnce, if_neg (Ne.symm h.1), ih h.2]
    rfl

theorem splitN_append {c : Char} {a : Str} (h : c ∉ a) (n : Nat) (b : Str) :
    splitN c (n + 2) (a ++ c :: b) = a :: splitN c (n + 1) b := by
  rw [splitN, splitOnce_append h]

/-- What `splitOnce` answers is the string around the first separator. -/
theorem splitOnce_eq_some_iff {c : Char} {s a b : Str} :
    splitOnce c s = some (a, b) ↔ s = a ++ c :: b ∧ c ∉ a := by
  constructor
  · intro h
    by_cases hmem : c ∈ s
    · obtain ⟨a', b', rfl, ha⟩ := List.eq_append_cons_of_mem hmem
      rw [splitOnce_append ha, Option.some.injEq, Prod.mk.injEq] at h
      obtain ⟨rfl, rfl⟩ := h
      exact ⟨rfl, ha⟩
    · rw [splitOnce_eq_none hmem] at h
      cases h
  · rintro ⟨rfl, ha⟩
    exact splitOnce_append ha b

theorem splitOnce_eq_none_iff {c : Char} {s : Str} : splitOnce c s = none ↔ c ∉ s := by
  constructor
  · intro h hmem
    obtain ⟨a, b, rfl, ha⟩ := List.eq_append_cons_of_mem hmem
    rw [splitOnce_append ha] at h
    cases h
  · exact splitOnce_eq_none

/-- What a list is split at is in none of the pieces. -/
theorem of_mem_splitOnP {α : Type} {p : α → Bool} {s piece : List α} (h : piece ∈ s.splitOnP p)
    {x : α} (hx : x ∈ piece) : p x = false := by
  induction s generalizing piece with
  | nil =>
    rw [List.splitOnP_nil, List.mem_singleton] at h
    simp [h] at hx
  | cons y s ih =>
    rw [List.splitOnP_cons_eq_if_modifyHead] at h
    split at h
    · rcases List.mem_cons.mp h with rfl | hs
      · simp at hx
      · exact ih hs hx
    · rename_i hy
      obtain ⟨q, qs, hqs⟩ := List.exists_cons_of_ne_nil (List.splitOnP_ne_nil p s)
      rw [hqs, List.modifyHead_cons, List.mem_cons] at h
      rcases h with rfl | hs
      · rcases List.mem_cons.mp hx with rfl | hq
        · simpa using hy
        · exact ih (hqs ▸ List.mem_cons_self) hq
      · exact ih (hqs ▸ List.mem_cons_of_mem q hs) hx

/-- A string with separators has a first one. -/
theorem exists_append_of_count {c : Char} {s : Str} {n : Nat} (h : s.count c = n + 1) :
    ∃ a b, s = a ++ c :: b ∧ c ∉ a ∧ b.count c = n := by
  have hmem : c ∈ s := List.count_pos_iff.mp (by omega)
  obtain ⟨a, b, rfl, ha⟩ := List.eq_append_cons_of_mem hmem
  refine ⟨a, b, rfl, ha, ?_⟩
  rw [List.count_append, List.count_cons_self, List.count_eq_zero_of_not_mem ha] at h
  omega

/-- What follows the prefix is left. -/
theorem stripStart_eq_some_iff {pat s rest : Str} :
    stripStart pat s = some rest ↔ s = pat ++ rest := by
  constructor
  · intro h
    unfold stripStart at h
    split at h
    · rename_i hprefix
      obtain ⟨t, rfl⟩ := List.isPrefixOf_iff_prefix.mp hprefix
      rw [List.drop_left, Option.some.injEq] at h
      rw [h]
    · cases h
  · rintro rfl
    rw [stripStart, if_pos (List.isPrefixOf_iff_prefix.mpr (List.prefix_append pat rest)),
      List.drop_left]

theorem trim_eq_rdropWhile (s : Str) :
    trim s = (s.dropWhile isWhitespace).rdropWhile isWhitespace := rfl

/-- A trimmed string has nothing left to trim. -/
theorem trim_trim (s : Str) : trim (trim s) = trim s := by
  have hfront : (trim s).dropWhile isWhitespace = trim s := by
    rw [List.dropWhile_eq_self_iff]
    intro hl
    -- what is left begins as the string did when its front was trimmed
    obtain ⟨rest, hrest⟩ := List.rdropWhile_prefix isWhitespace (s.dropWhile isWhitespace)
    rw [← trim_eq_rdropWhile] at hrest
    have hl' : 0 < (s.dropWhile isWhitespace).length := by
      rw [← hrest, List.length_append]
      omega
    have hhead : (trim s)[0] = (s.dropWhile isWhitespace)[0] := by
      simp only [← hrest]
      exact (List.getElem_append_left hl).symm
    rw [hhead]
    exact List.dropWhile_get_zero_not isWhitespace s hl'
  rw [trim_eq_rdropWhile (trim s), hfront, trim_eq_rdropWhile s, List.rdropWhile_idempotent]

/-! ## 4. The lines of a long text

The lines of two texts, one behind the other, where the first ends with a newline. -/

theorem linesFrom_append_newline (cur a b : Str) :
    linesFrom cur (a ++ '\n' :: b) = linesFrom cur (a ++ ['\n']) ++ lines b := by
  induction a generalizing cur with
  | nil => simp [linesFrom, lines]
  | cons c cs ih =>
    rw [List.cons_append, List.cons_append, linesFrom, linesFrom]
    by_cases hc : c = '\n'
    · rw [if_pos hc, if_pos hc, ih, List.cons_append]
    · rw [if_neg hc, if_neg hc, ih]

/-- A text without newlines is a single line. -/
theorem linesFrom_of_not_mem {cur s : Str} (hs : '\n' ∉ s) (hne : cur ++ s ≠ []) :
    linesFrom cur s = [cur ++ s] := by
  induction s generalizing cur with
  | nil =>
    rw [List.append_nil] at hne ⊢
    exact if_neg hne
  | cons c cs ih =>
    rw [List.mem_cons, not_or] at hs
    rw [linesFrom, if_neg (Ne.symm hs.1), ih hs.2 (by simp), List.append_assoc,
      List.singleton_append]

/-- A text without newlines is one line. -/
theorem lines_of_not_mem {s : Str} (hs : '\n' ∉ s) (hne : s ≠ []) : lines s = [s] :=
  linesFrom_of_not_mem hs hne

/-- The first line ends at the first newline. -/
theorem linesFrom_line {cur s : Str} (hs : '\n' ∉ s) (rest : Str) :
    linesFrom cur (s ++ '\n' :: rest) = chomp (cur ++ s) :: lines rest := by
  induction s generalizing cur with
  | nil => rw [List.nil_append, linesFrom, if_pos rfl, List.append_nil, lines]
  | cons c s ih =>
    rw [List.mem_cons, not_or] at hs
    rw [List.cons_append, linesFrom, if_neg (Ne.symm hs.1), ih hs.2, List.append_assoc,
      List.singleton_append]

/-- The first line ends at the first newline. -/
theorem lines_line {s : Str} (hs : '\n' ∉ s) (rest : Str) :
    lines (s ++ '\n' :: rest) = chomp s :: lines rest :=
  linesFrom_line hs rest

/-- What follows a newline has its own lines. -/
theorem lines_append_newline (a b : Str) :
    lines (a ++ '\n' :: b) = lines (a ++ ['\n']) ++ lines b :=
  linesFrom_append_newline [] a b

/-- Every newline ends a line. -/
theorem count_le_length_linesFrom (cur s : Str) : s.count '\n' ≤ (linesFrom cur s).length := by
  induction s generalizing cur with
  | nil => simp
  | cons c cs ih =>
    rw [linesFrom]
    by_cases hc : c = '\n'
    · rw [if_pos hc, hc, List.count_cons_self, List.length_cons]
      exact Nat.succ_le_succ (ih [])
    · rw [if_neg hc, List.count_cons_of_ne hc]
      exact ih _

/-- Every newline ends a line. -/
theorem count_le_length_lines (s : Str) : s.count '\n' ≤ (lines s).length :=
  count_le_length_linesFrom [] s

/-- Elements far enough from the end are not among the last ones. -/
theorem rtake_append_of_le {α : Type} {a b : List α} {n : Nat} (h : n ≤ b.length) :
    (a ++ b).rtake n = b.rtake n := by
  have hlen : a.length + b.length - n - a.length = b.length - n := by omega
  rw [List.rtake, List.rtake, List.length_append, List.drop_append, hlen,
    List.drop_eq_nil_of_le (by omega), List.nil_append]

end Text

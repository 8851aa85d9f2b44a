/-
# The end of a log

`read_last_lines` returns the last lines of a log without reading the whole file: it reads chunks
from the end until it has seen enough newlines, and decodes what it has only then.  Its first line
may be cut anywhere, even inside a character, but then it is not among the lines that are returned
(`read_last_lines_eq`).
-/
import SlurmRunner.Text.Utf8

namespace Sbatch

open Text

/-- `TAIL_READ_CHUNK`. -/
def tailReadChunk : Nat := 8192

/-- How many newlines there are. -/
def newlines (buf : List UInt8) : Nat := buf.count 0x0A

/-- The loop of `read_last_lines`: the file is read from `pos` on, and `buf` is what was read. -/
def tailFrom (content : List UInt8) (n pos : Nat) (buf : List UInt8) : List UInt8 :=
  if pos = 0 then buf
  else
    let readLen := min tailReadChunk pos
    let chunk := (content.drop (pos - readLen)).take readLen ++ buf
    if n < newlines chunk then chunk else tailFrom content n (pos - readLen) chunk
termination_by pos
decreasing_by
  have hchunk : 0 < tailReadChunk := by decide
  omega

/-- `read_last_lines`, where `file` is what opening the file returns. -/
def readLastLines (file : Except Str (List UInt8)) (n : Nat) : Except Str (List Str) :=
  if n = 0 then .ok []
  else
    file.map fun content =>
      let found := lines (fromUtf8Lossy (tailFrom content n content.length []))
      if n < found.length then found.drop (found.length - n) else found

/-! ## What the loop has read -/

/-- With the chunk before it, an end of a file is a longer end. -/
theorem take_drop_chunk {α : Type} (a : List α) (chunk pos : Nat) :
    (a.drop (pos - min chunk pos)).take (min chunk pos) ++ a.drop pos =
      a.drop (pos - min chunk pos) := by
  have h := List.take_append_drop (min chunk pos) (a.drop (pos - min chunk pos))
  rwa [List.drop_drop, Nat.sub_add_cancel (Nat.min_le_right _ _)] at h

/-- The loop ends with an end of the file: all of it, or one with enough newlines. -/
theorem tailFrom_suffix (content : List UInt8) (n pos : Nat) (hpos : pos ≤ content.length) :
    ∃ before, content = before ++ tailFrom content n pos (content.drop pos) ∧
      (before = [] ∨ n < newlines (tailFrom content n pos (content.drop pos))) := by
  induction pos using Nat.strong_induction_on with
  | _ pos ih =>
    rw [tailFrom]
    by_cases hzero : pos = 0
    · subst hzero
      exact ⟨[], by simp, .inl rfl⟩
    · rw [if_neg hzero]
      dsimp only
      have hchunk : 0 < tailReadChunk := by decide
      have hlt : pos - min tailReadChunk pos < pos := by omega
      -- the chunk and what was read before it are one end of the file
      have hread := take_drop_chunk content tailReadChunk pos
      rw [hread]
      split
      · rename_i henough
        exact ⟨content.take (pos - min tailReadChunk pos), (List.take_append_drop _ _).symm,
          .inr henough⟩
      · exact ih _ hlt (by omega)

/-- A text has at least as many lines as its bytes have newlines. -/
theorem newlines_le_length_lines (bytes : List UInt8) :
    newlines bytes ≤ (lines (fromUtf8Lossy bytes)).length := by
  refine le_trans ?_ (count_le_length_lines _)
  generalize hcount : newlines bytes = k
  induction k generalizing bytes with
  | zero => exact Nat.zero_le _
  | succ k ih =>
    have hmem : (0x0A : UInt8) ∈ bytes := List.count_pos_iff.mp (by rw [newlines] at hcount; omega)
    obtain ⟨a, b, rfl, ha⟩ := List.eq_append_cons_of_mem hmem
    have hrest : newlines b = k := by
      rw [newlines, List.count_append, List.count_cons_self, List.count_eq_zero_of_not_mem ha]
        at hcount
      rw [newlines]
      omega
    rw [fromUtf8Lossy_append_newline, List.count_append, List.count_cons_self]
    have := ih b hrest
    omega

/-- What stands before enough newlines does not change the last lines. -/
theorem rtake_lines_append {before buf : List UInt8} {n : Nat} (h : n < newlines buf) :
    (lines (fromUtf8Lossy (before ++ buf))).rtake n = (lines (fromUtf8Lossy buf)).rtake n := by
  have hmem : (0x0A : UInt8) ∈ buf := List.count_pos_iff.mp (by rw [newlines] at h; omega)
  obtain ⟨a, b, rfl, ha⟩ := List.eq_append_cons_of_mem hmem
  have henough : n ≤ (lines (fromUtf8Lossy b)).length := by
    refine le_trans ?_ (newlines_le_length_lines b)
    rw [newlines, List.count_append, List.count_cons_self, List.count_eq_zero_of_not_mem ha] at h
    rw [newlines]
    omega
  rw [← List.append_assoc, fromUtf8Lossy_append_newline, fromUtf8Lossy_append_newline,
    lines_append_newline, lines_append_newline (fromUtf8Lossy a), rtake_append_of_le henough,
    rtake_append_of_le henough]

/-- **The end of a log is that of the whole log.** -/
theorem read_last_lines_eq (content : List UInt8) (n : Nat) :
    readLastLines (.ok content) n = .ok ((lines (fromUtf8Lossy content)).rtake n) := by
  unfold readLastLines
  by_cases hn : n = 0
  · rw [if_pos hn, hn, List.rtake_zero]
  · rw [if_neg hn]
    obtain ⟨before, hsplit, hwhole⟩ := tailFrom_suffix content n content.length (le_refl _)
    rw [List.drop_length] at hsplit hwhole
    have hlast : (lines (fromUtf8Lossy content)).rtake n =
        (lines (fromUtf8Lossy (tailFrom content n content.length []))).rtake n := by
      rcases hwhole with hnil | henough
      · rw [hnil, List.nil_append] at hsplit
        exact congrArg (fun bytes => (lines (fromUtf8Lossy bytes)).rtake n) hsplit
      · conv_lhs => rw [hsplit]
        exact rtake_lines_append henough
    rw [hlast]
    dsimp only [Except.map]
    split
    · rfl
    · rename_i hfew
      rw [List.rtake, Nat.sub_eq_zero_of_le (Nat.le_of_not_lt hfew), List.drop_zero]

end Sbatch

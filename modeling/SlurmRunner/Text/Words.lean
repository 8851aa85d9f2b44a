/-
# Words

How `split_whitespace` and `trim` go together: a text is its trimmed middle between two blank ends,
which has the same words.
-/
import SlurmRunner.Text.Split

namespace Text

/-- A non-empty text without whitespace. -/
def IsWord (w : Str) : Prop := w ≠ [] ∧ ∀ c ∈ w, isWhitespace c = false

/-- A text without whitespace, from its evaluation. -/
theorem no_whitespace_of_all {s : Str} (h : s.all (fun c => !isWhitespace c) = true) :
    ∀ c ∈ s, isWhitespace c = false := by
  simpa using h

/-- The words around a blank. -/
theorem splitWhitespace_append_cons (a b : Str) {c : Char} (hc : isWhitespace c = true) :
    splitWhitespace (a ++ c :: b) = splitWhitespace a ++ splitWhitespace b := by
  rw [splitWhitespace, List.splitOnP_append_cons a b hc, List.filter_append]
  rfl

theorem splitWhitespace_of_isWord {w : Str} (h : IsWord w) : splitWhitespace w = [w] := by
  rw [splitWhitespace, List.splitOnP_eq_singleton h.2]
  simp [h.1]

/-- A word, then a blank. -/
theorem IsWord.splitWhitespace_append {w : Str} (h : IsWord w) {c : Char}
    (hc : isWhitespace c = true) (rest : Str) :
    splitWhitespace (w ++ c :: rest) = w :: splitWhitespace rest := by
  rw [splitWhitespace_append_cons w rest hc, splitWhitespace_of_isWord h, List.singleton_append]

/-- A blank text has no words. -/
theorem splitWhitespace_of_blank {s : Str} (h : ∀ c ∈ s, isWhitespace c = true) :
    splitWhitespace s = [] := by
  induction s with
  | nil => rfl
  | cons c s ih =>
    have hs := ih fun x hx => h x (List.mem_cons_of_mem c hx)
    exact (splitWhitespace_append_cons [] s (h c List.mem_cons_self)).trans hs

/-- Blanks in front add no word. -/
theorem splitWhitespace_blank_append {lead : Str} (h : ∀ c ∈ lead, isWhitespace c = true)
    (s : Str) :
    splitWhitespace (lead ++ s) = splitWhitespace s := by
  induction lead with
  | nil => rfl
  | cons c lead ih =>
    have hs := ih fun x hx => h x (List.mem_cons_of_mem c hx)
    exact (splitWhitespace_append_cons [] (lead ++ s) (h c List.mem_cons_self)).trans hs

/-- Blanks behind add no word. -/
theorem splitWhitespace_append_blank {trail : Str} (h : ∀ c ∈ trail, isWhitespace c = true)
    (s : Str) : splitWhitespace (s ++ trail) = splitWhitespace s := by
  cases trail with
  | nil => rw [List.append_nil]
  | cons c trail =>
    have hblank := splitWhitespace_of_blank fun x hx => h x (List.mem_cons_of_mem c hx)
    rw [splitWhitespace_append_cons s trail (h c List.mem_cons_self), hblank, List.append_nil]

/-- **A text is its trimmed middle between two blank ends.** -/
theorem exists_trim (s : Str) : ∃ lead trail, s = lead ++ (trim s ++ trail) ∧
    (∀ c ∈ lead, isWhitespace c = true) ∧ ∀ c ∈ trail, isWhitespace c = true := by
  refine ⟨s.takeWhile isWhitespace, (s.dropWhile isWhitespace).rtakeWhile isWhitespace, ?_,
    fun c => List.mem_takeWhile_imp, fun c => List.mem_rtakeWhile_imp⟩
  rw [trim_eq_rdropWhile, List.rdropWhile_append_rtakeWhile, List.takeWhile_append_dropWhile]

/-- Trimming leaves the words. -/
theorem splitWhitespace_trim (s : Str) : splitWhitespace (trim s) = splitWhitespace s := by
  obtain ⟨lead, trail, hs, hlead, htrail⟩ := exists_trim s
  calc splitWhitespace (trim s)
      = splitWhitespace (trim s ++ trail) := (splitWhitespace_append_blank htrail _).symm
    _ = splitWhitespace (lead ++ (trim s ++ trail)) := (splitWhitespace_blank_append hlead _).symm
    _ = splitWhitespace s := by rw [← hs]

/-- **The words of a text are words.** -/
theorem isWord_of_mem {s w : Str} (h : w ∈ splitWhitespace s) : IsWord w := by
  obtain ⟨hmem, hne⟩ := List.mem_filter.mp h
  exact ⟨by simpa using hne, fun c hc => of_mem_splitOnP hmem hc⟩

/-- The first word, or nothing, has no blank. -/
theorem not_blank_of_mem_headD {s : Str} {c : Char} (h : c ∈ (splitWhitespace s).headD []) :
    isWhitespace c = false := by
  cases hwords : splitWhitespace s with
  | nil => simp [hwords] at h
  | cons w rest =>
    rw [hwords, List.headD_cons] at h
    exact (isWord_of_mem (hwords ▸ List.mem_cons_self)).2 c h

/-- **A text with at most one word** is that word, trimmed. -/
theorem headD_splitWhitespace {s : Str} (h : ∀ c ∈ trim s, isWhitespace c = false) :
    (splitWhitespace s).headD [] = trim s := by
  rw [← splitWhitespace_trim]
  by_cases hnil : trim s = []
  · rw [hnil]
    rfl
  · rw [splitWhitespace_of_isWord ⟨hnil, h⟩, List.headD_cons]

/-- What is left after trimming was there before. -/
theorem mem_of_mem_trim {s : Str} {c : Char} (h : c ∈ trim s) : c ∈ s := by
  obtain ⟨lead, trail, hs, -, -⟩ := exists_trim s
  rw [hs]
  simp [h]

end Text

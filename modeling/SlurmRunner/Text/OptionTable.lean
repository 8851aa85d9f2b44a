/-
# Options on a command line

A table of options, each with its word and the way it takes its value.  `scan` reads a command line
from left to right: options with their values, then a first word that is no option, then whatever
follows.  A line that was written with the options of the table reads back whatever the values are
(`scan_emit`): a value is never looked at, and no word of the table begins as another does.
-/
import SlurmRunner.Text.Split

namespace Text

/-- How an option takes its value. -/
inductive ValueForm where
  /-- The value is the next word. -/
  | next
  /-- The value is the rest of the word. -/
  | joined
  /-- The option has no value. -/
  | alone
deriving DecidableEq, Repr

/-- The options that a program knows. -/
structure OptionTable (ω : Type) where
  options : List ω
  word : ω → Str
  form : ω → ValueForm
  /-- No word begins as another does. -/
  prefixFree : ∀ o ∈ options, ∀ o' ∈ options, word o <+: word o' → o = o'

namespace OptionTable

variable {ω : Type} (T : OptionTable ω)

/-! ## 1. Writing and reading -/

/-- An option with a value; an option that stands alone has the empty one. -/
def emit (o : ω) (v : Str) : List Str :=
  match T.form o with
  | .next => [T.word o, v]
  | .joined => [T.word o ++ v]
  | .alone => [T.word o]

/-- The option, if `w` is its word, with the value that the word itself holds. -/
def readAs (w : Str) (o : ω) : Option (ω × Option Str) :=
  match T.form o with
  | .next => if w = T.word o then some (o, none) else none
  | .joined => (stripStart (T.word o) w).map fun v => (o, some v)
  | .alone => if w = T.word o then some (o, some []) else none

/-- The option that a word begins. -/
def readWord (w : Str) : Option (ω × Option Str) := T.options.findSome? (T.readAs w)

/-- The options of a command line with their values, the first word that is no option, and the
rest. -/
def scan : List Str → Option (List (ω × Str) × Str × List Str)
  | [] => none
  | w :: rest =>
    match T.readWord w with
    | none => some ([], w, rest)
    | some (o, some v) => (scan rest).map fun r => ((o, v) :: r.1, r.2)
    | some (o, none) =>
      match rest with
      | [] => none
      | v :: rest => (scan rest).map fun r => ((o, v) :: r.1, r.2)

/-! ## 2. Reading what was written -/

variable {T}

/-- A word is read only as an option that it begins with. -/
theorem prefix_of_readAs {w : Str} {o : ω} (h : T.readAs w o ≠ none) : T.word o <+: w := by
  unfold readAs at h
  split at h
  · by_cases hw : w = T.word o
    · exact hw ▸ List.prefix_refl _
    · rw [if_neg hw] at h
      exact absurd rfl h
  · by_cases hw : (T.word o).isPrefixOf w
    · exact List.isPrefixOf_iff_prefix.mp hw
    · rw [stripStart, if_neg hw] at h
      exact absurd rfl h
  · by_cases hw : w = T.word o
    · exact hw ▸ List.prefix_refl _
    · rw [if_neg hw] at h
      exact absurd rfl h

/-- A word is read as at most one option. -/
theorem eq_of_readAs {w : Str} {o o' : ω} (ho : o ∈ T.options) (ho' : o' ∈ T.options)
    (h : T.readAs w o ≠ none) (h' : T.readAs w o' ≠ none) : o = o' := by
  rcases List.prefix_or_prefix_of_prefix (prefix_of_readAs h) (prefix_of_readAs h') with hp | hp
  · exact T.prefixFree o ho o' ho' hp
  · exact (T.prefixFree o' ho' o ho hp).symm

theorem readWord_eq {w : Str} {o : ω} {v : Option Str} (ho : o ∈ T.options)
    (h : T.readAs w o = some (o, v)) : T.readWord w = some (o, v) := by
  cases hread : T.readWord w with
  | none =>
    rw [List.findSome?_eq_none_iff.mp hread o ho] at h
    cases h
  | some r =>
    obtain ⟨o', ho', hr⟩ := List.exists_of_findSome?_eq_some hread
    have hsome : T.readAs w o ≠ none := by simp [h]
    have hsome' : T.readAs w o' ≠ none := by simp [hr]
    obtain rfl : o' = o := eq_of_readAs ho' ho hsome' hsome
    exact hr.symm.trans h

/-- **One option reads back**, with whatever follows. -/
theorem scan_emit_append {o : ω} {v : Str} (ho : o ∈ T.options)
    (hv : T.form o = .alone → v = []) (rest : List Str) :
    T.scan (T.emit o v ++ rest) = (T.scan rest).map fun r => ((o, v) :: r.1, r.2) := by
  cases hform : T.form o with
  | next =>
    have hread : T.readWord (T.word o) = some (o, none) :=
      readWord_eq ho (by simp [readAs, hform])
    have hemit : T.emit o v ++ rest = T.word o :: v :: rest := by simp [emit, hform]
    rw [hemit, scan, hread]
  | joined =>
    have hread : T.readWord (T.word o ++ v) = some (o, some v) :=
      readWord_eq ho (by simp [readAs, hform, stripStart])
    have hemit : T.emit o v ++ rest = (T.word o ++ v) :: rest := by simp [emit, hform]
    rw [hemit, scan, hread]
  | alone =>
    have hread : T.readWord (T.word o) = some (o, some []) :=
      readWord_eq ho (by simp [readAs, hform])
    have hemit : T.emit o v ++ rest = T.word o :: rest := by simp [emit, hform]
    rw [hemit, scan, hread, hv hform]

/-- A word that begins as no option ends the options. -/
theorem scan_cons {w : Str} (hw : ∀ o ∈ T.options, ¬ T.word o <+: w) (rest : List Str) :
    T.scan (w :: rest) = some ([], w, rest) := by
  have hread : T.readWord w = none := by
    refine List.findSome?_eq_none_iff.mpr ?_
    intro o ho
    by_contra h
    exact hw o ho (prefix_of_readAs h)
  rw [scan, hread]

/-- **A written command line reads back.** -/
theorem scan_emit {settings : List (ω × Str)}
    (h : ∀ s ∈ settings, s.1 ∈ T.options ∧ (T.form s.1 = .alone → s.2 = [])) {w : Str}
    (hw : ∀ o ∈ T.options, ¬ T.word o <+: w) (rest : List Str) :
    T.scan (settings.flatMap (fun s => T.emit s.1 s.2) ++ w :: rest) =
      some (settings, w, rest) := by
  induction settings with
  | nil => exact scan_cons hw rest
  | cons s settings ih =>
    obtain ⟨ho, hv⟩ := h s List.mem_cons_self
    rw [List.flatMap_cons, List.append_assoc, scan_emit_append ho hv,
      ih fun s' hs' => h s' (List.mem_cons_of_mem _ hs')]
    rfl

/-! ## 3. Fields of options -/

variable (T)

/-- The options that are set, in the order of the table. -/
def settings (field : ω → Option Str) : List (ω × Str) :=
  T.options.filterMap fun o => (field o).map fun v => (o, v)

/-- The command line of these fields, with a first word that is no option and the rest. -/
def write (field : ω → Option Str) (w : Str) (rest : List Str) : List Str :=
  (T.settings field).flatMap (fun s => T.emit s.1 s.2) ++ w :: rest

/-- The fields can be written: an option that stands alone has no value, and the first word begins
as no option. -/
structure Writes (field : ω → Option Str) (w : Str) : Prop where
  alone : ∀ o v, field o = some v → T.form o = .alone → v = []
  word : ∀ o ∈ T.options, ¬ T.word o <+: w

variable {T}

theorem mem_settings {field : ω → Option Str} {o : ω} {v : Str} :
    (o, v) ∈ T.settings field ↔ o ∈ T.options ∧ field o = some v := by
  simp [settings]

theorem scan_write {field : ω → Option Str} {w : Str} (h : T.Writes field w) (rest : List Str) :
    T.scan (T.write field w rest) = some (T.settings field, w, rest) := by
  refine scan_emit ?_ h.word rest
  rintro ⟨o, v⟩ hs
  obtain ⟨ho, hv⟩ := mem_settings.mp hs
  exact ⟨ho, h.alone o v hv⟩

/-- The options that are set determine the fields, where every option is in the table. -/
theorem settings_inj {field field' : ω → Option Str} (hall : ∀ o, o ∈ T.options)
    (h : T.settings field = T.settings field') : field = field' := by
  funext o
  refine Option.ext fun v => ?_
  have hmem : (o, v) ∈ T.settings field ↔ (o, v) ∈ T.settings field' := by rw [h]
  simpa only [mem_settings, hall o, true_and] using hmem

/-- The options that are set are written one after the other. -/
theorem flatMap_settings (field : ω → Option Str) (f : ω → Str → List Str) :
    (T.settings field).flatMap (fun s => f s.1 s.2) =
      T.options.flatMap fun o => ((field o).map (f o)).getD [] := by
  rw [settings]
  generalize T.options = options
  induction options with
  | nil => rfl
  | cons o options ih =>
    rw [List.filterMap_cons, List.flatMap_cons]
    cases field o with
    | none => exact ih
    | some v => exact congrArg (f o v ++ ·) ih

/-- **Two command lines are the same if and only if their fields are**, where every option is in the
table. -/
theorem write_inj {field field' : ω → Option Str} {w w' : Str} {rest rest' : List Str}
    (hall : ∀ o, o ∈ T.options) (h : T.Writes field w) (h' : T.Writes field' w')
    (hline : T.write field w rest = T.write field' w' rest') :
    field = field' ∧ w = w' ∧ rest = rest' := by
  have hscan := scan_write h rest
  rw [hline, scan_write h' rest', Option.some.injEq, Prod.mk.injEq, Prod.mk.injEq] at hscan
  obtain ⟨hsettings, hw, hrest⟩ := hscan
  exact ⟨settings_inj hall hsettings.symm, hw.symm, hrest.symm⟩

end OptionTable

end Text

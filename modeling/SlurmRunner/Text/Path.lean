/-
# Paths

`std::path::absolute` on a path of text: the path is put below the current directory, unless it is
absolute, and repeated separators and `.` components are left out.  The current directory is asked
for only when it is needed, and asking for it can fail.
-/
import SlurmRunner.Text.Split

namespace Text

namespace Path

/-- `Path::is_absolute`. -/
def isAbsolute (p : Str) : Bool := p.head? == some '/'

/-- `Path::components`, without the root. -/
def components (p : Str) : List Str :=
  (p.splitOn '/').filter fun c => c ≠ [] ∧ c ≠ ("." : Str)

/-- `PathBuf::push` of a component, or of the empty path, which leaves a separator at the end. -/
def push (dir component : Str) : Str :=
  if dir.getLast? = some '/' then dir ++ component else dir ++ '/' :: component

/-- Two leading separators, and not more, have a meaning of their own. -/
def root (p : Str) : Str :=
  if (stripStart "//" p).isSome ∧ stripStart "///" p = none then "//" else "/"

/-- `std::path::absolute`, where `currentDir` is what `env::current_dir` returns. -/
def absolute (currentDir : Except Str Str) (p : Str) : Except Str Str :=
  if p = [] then .error "cannot make an empty path absolute"
  else (if isAbsolute p then .ok (root p) else currentDir).map fun dir =>
    let normalized := (components p).foldl push dir
    if p.getLast? = some '/' then push normalized [] else normalized

/-- An absolute path needs no current directory. -/
theorem absolute_ok_iff {currentDir : Except Str Str} {p : Str} (hp : p ≠ []) :
    (∃ q, absolute currentDir p = .ok q) ↔
      isAbsolute p = true ∨ ∃ dir, currentDir = .ok dir := by
  unfold absolute
  rw [if_neg hp]
  by_cases habs : isAbsolute p = true
  · rw [if_pos habs]
    exact ⟨fun _ => .inl habs, fun _ => ⟨_, rfl⟩⟩
  · rw [if_neg habs]
    cases currentDir with
    | error e =>
      constructor
      · rintro ⟨q, hq⟩
        cases hq
      · rintro (h | ⟨dir, hdir⟩)
        · exact absurd h habs
        · cases hdir
    | ok dir => exact ⟨fun _ => .inr ⟨dir, rfl⟩, fun _ => ⟨_, rfl⟩⟩

theorem ne_nil_of_absolute {currentDir : Except Str Str} {p q : Str}
    (h : absolute currentDir p = .ok q) : p ≠ [] := by
  rintro rfl
  cases h

/-- Below a path that begins with a slash, every path does. -/
theorem head_foldl_push {dir : Str} (h : dir.head? = some '/') (cs : List Str) :
    (cs.foldl push dir).head? = some '/' := by
  induction cs generalizing dir with
  | nil => exact h
  | cons c cs ih =>
    refine ih ?_
    unfold push
    split
    · rw [List.head?_append, h, Option.some_or]
    · rw [List.head?_append, h, Option.some_or]

/-- **An absolute path begins with a slash**, where the current directory does. -/
theorem head_absolute {currentDir : Except Str Str} {p q : Str}
    (hdir : ∀ d, currentDir = .ok d → d.head? = some '/') (h : absolute currentDir p = .ok q) :
    q.head? = some '/' := by
  unfold absolute at h
  rw [if_neg (ne_nil_of_absolute h)] at h
  have hroot : ∀ d, (if isAbsolute p then .ok (root p) else currentDir) = .ok d →
      d.head? = some '/' := by
    intro d hd
    split at hd
    · cases hd
      unfold root
      split
      · rfl
      · rfl
    · exact hdir d hd
  cases hbase : (if isAbsolute p then .ok (root p) else currentDir) with
  | error e =>
    rw [hbase] at h
    cases h
  | ok d =>
    rw [hbase] at h
    cases h
    have hnormal := head_foldl_push (hroot d hbase) (components p)
    dsimp only
    split
    · exact head_foldl_push hnormal [[]]
    · exact hnormal

example : absolute (.ok "/home/u") "./a//b/./c/" = .ok "/home/u/a/b/c/" := by decide

end Path

end Text

/-
# Keyed rows

A parser of a listing reads its lines one by one and either skips a line or takes a key and a
value from it.  `lastRows` collects the values in a map, where a later row of a key replaces an
earlier one; `List.findSome?` of one key's rows is the parser that stops at the first.

What such a parser says about one key depends on the rows of that key only.
-/
import Mathlib.Data.List.Basic
import SlurmRunner.Text.Split

namespace Text

variable {K V : Type} [DecidableEq K]

/-- A finite map, as its lookup function. -/
abbrev Map (K V : Type) := K → Option V

namespace Map

/-- `HashMap::new`. -/
def empty : Map K V := fun _ => none

/-- `HashMap::insert`. -/
def insert (m : Map K V) (k : K) (v : V) : Map K V :=
  fun k' => if k' = k then some v else m k'

@[simp] theorem insert_self (m : Map K V) (k : K) (v : V) : m.insert k v k = some v := by
  simp [insert]

theorem insert_of_ne (m : Map K V) {k k' : K} (v : V) (h : k' ≠ k) :
    m.insert k v k' = m k' := by
  simp [insert, h]

end Map

/-! ## The map of a listing -/

/-- Take one line into the map. -/
def takeRow (row : Str → Option (K × V)) (m : Map K V) (line : Str) : Map K V :=
  match row line with
  | some (k, v) => m.insert k v
  | none => m

/-- The map of all lines. -/
def lastRows (row : Str → Option (K × V)) (ls : List Str) : Map K V :=
  ls.foldl (takeRow row) Map.empty

/-- The values of the rows of key `k`, in their order. -/
def rowsOf (row : Str → Option (K × V)) (k : K) (ls : List Str) : List V :=
  ls.filterMap fun l => (row l).bind fun kv => if kv.1 = k then some kv.2 else none

/-- The map has the last row of each key. -/
theorem foldl_takeRow (row : Str → Option (K × V)) (k : K) (ls : List Str) (m : Map K V) :
    ls.foldl (takeRow row) m k = ((rowsOf row k ls).getLast?).or (m k) := by
  induction ls generalizing m with
  | nil => simp [rowsOf]
  | cons l ls ih =>
    rw [List.foldl_cons, ih]
    cases hl : row l with
    | none => simp [rowsOf, takeRow, hl]
    | some kv =>
      obtain ⟨k', v⟩ := kv
      by_cases hk : k' = k
      · subst hk
        have hcons : rowsOf row k' (l :: ls) = v :: rowsOf row k' ls := by simp [rowsOf, hl]
        rw [hcons, List.getLast?_cons, takeRow, hl]
        cases (rowsOf row k' ls).getLast? <;> simp
      · have hskip : rowsOf row k (l :: ls) = rowsOf row k ls := by simp [rowsOf, hl, hk]
        simp only [hskip, takeRow, hl, Map.insert_of_ne m v (Ne.symm hk)]

/-- **The map says of a key what its last row says.** -/
theorem lastRows_apply (row : Str → Option (K × V)) (k : K) (ls : List Str) :
    lastRows row ls k = (rowsOf row k ls).getLast? := by
  rw [lastRows, foldl_takeRow, Map.empty, Option.or_none]

/-- The rows of a key are those of its lines. -/
theorem mem_rowsOf {row : Str → Option (K × V)} {k : K} {ls : List Str} {v : V} :
    v ∈ rowsOf row k ls ↔ ∃ l ∈ ls, row l = some (k, v) := by
  simp only [rowsOf, List.mem_filterMap]
  constructor
  · rintro ⟨l, hl, h⟩
    cases hr : row l with
    | none => rw [hr] at h; cases h
    | some kv =>
      obtain ⟨k', v'⟩ := kv
      rw [hr, Option.bind_some] at h
      by_cases hk : k' = k
      · rw [if_pos hk, Option.some.injEq] at h
        subst hk h
        exact ⟨l, hl, hr⟩
      · rw [if_neg hk] at h
        cases h
  · rintro ⟨l, hl, h⟩
    exact ⟨l, hl, by simp [h]⟩

/-- A key is missing from the map exactly when no line is a row of it. -/
theorem lastRows_eq_none {row : Str → Option (K × V)} {k : K} {ls : List Str} :
    lastRows row ls k = none ↔ ∀ l ∈ ls, ∀ v, row l ≠ some (k, v) := by
  rw [lastRows_apply, List.getLast?_eq_none_iff, List.eq_nil_iff_forall_not_mem]
  constructor
  · intro h l hl v hv
    exact h v (mem_rowsOf.mpr ⟨l, hl, hv⟩)
  · intro h v hv
    obtain ⟨l, hl, hr⟩ := mem_rowsOf.mp hv
    exact h l hl v hr

/-- What the map says of a key comes from a line of it. -/
theorem exists_row_of_lastRows {row : Str → Option (K × V)} {k : K} {ls : List Str} {v : V}
    (h : lastRows row ls k = some v) : ∃ l ∈ ls, row l = some (k, v) := by
  rw [lastRows_apply] at h
  exact mem_rowsOf.mp (List.mem_of_getLast? h)

/-- A key with one value throughout has that value in the map. -/
theorem lastRows_eq_some {row : Str → Option (K × V)} {k : K} {ls : List Str} {v : V}
    (hrow : ∃ l ∈ ls, row l = some (k, v))
    (hall : ∀ l ∈ ls, ∀ v', row l = some (k, v') → v' = v) : lastRows row ls k = some v := by
  rw [lastRows_apply]
  have hv : v ∈ rowsOf row k ls := mem_rowsOf.mpr hrow
  cases h : (rowsOf row k ls).getLast? with
  | none =>
    rw [List.getLast?_eq_none_iff] at h
    rw [h] at hv
    cases hv
  | some v' =>
    obtain ⟨l, hl, hr⟩ := mem_rowsOf.mp (List.mem_of_getLast? h)
    rw [hall l hl v' hr]

/-- Parsers that agree on each line, up to `f`, agree on every key. -/
theorem lastRows_map {V' : Type} {row : Str → Option (K × V)} {row' : Str → Option (K × V')}
    (f : V' → V) {ls ls' : List Str}
    (h : List.Forall₂ (fun l l' => (row' l').map (Prod.map id f) = row l) ls ls') (k : K) :
    (lastRows row' ls' k).map f = lastRows row ls k := by
  have hrows : (rowsOf row' k ls').map f = rowsOf row k ls := by
    induction h with
    | nil => rfl
    | @cons l l' ls ls' hl hls ih =>
      have hcons : ∀ {W : Type} (r : Str → Option (K × W)) (l : Str) (ls : List Str),
          rowsOf r k (l :: ls) =
            ((r l).bind fun kv => if kv.1 = k then some kv.2 else none).toList ++
              rowsOf r k ls := by
        intro W r l ls
        rw [rowsOf, List.filterMap_cons]
        cases (r l).bind fun kv => if kv.1 = k then some kv.2 else none <;> rfl
      rw [hcons, hcons, List.map_append, ih, ← hl]
      congr 1
      cases row' l' with
      | none => rfl
      | some kv =>
        by_cases hk : kv.1 = k <;> simp [hk]
  rw [lastRows_apply, lastRows_apply, ← hrows, List.getLast?_map]

/-! ## The lines of one key -/

/-- The lines whose column is the key `k`. -/
def linesOf (column : Str → Option K) (k : K) (ls : List Str) : List Str :=
  ls.filter fun l => column l = some k

/-- What is taken from lines of the key only is taken from its lines. -/
theorem filterMap_linesOf {column : Str → Option K} {k : K} {f : Str → Option V}
    (h : ∀ l v, f l = some v → column l = some k) (ls : List Str) :
    (linesOf column k ls).filterMap f = ls.filterMap f := by
  rw [linesOf, List.filterMap_filter]
  refine List.filterMap_congr fun l _ => ?_
  split
  · rfl
  · rename_i hcolumn
    have hskip : ¬ ∃ v, f l = some v := by
      rintro ⟨v, hv⟩
      exact hcolumn (by simpa using h l v hv)
    exact (Option.eq_none_iff_forall_ne_some.mpr fun v hv => hskip ⟨v, hv⟩).symm

/-- **A map says of a key what the lines of the key say.** -/
theorem lastRows_linesOf {column : Str → Option K} {row : Str → Option (K × V)}
    (h : ∀ l k v, row l = some (k, v) → column l = some k) (k : K) (ls : List Str) :
    lastRows row (linesOf column k ls) k = lastRows row ls k := by
  rw [lastRows_apply, lastRows_apply, rowsOf, rowsOf, filterMap_linesOf]
  intro l v hv
  obtain ⟨⟨k', v'⟩, hrow, hk⟩ := Option.bind_eq_some_iff.mp hv
  dsimp only at hk
  split at hk
  · rename_i heq
    exact heq ▸ h l k' v' hrow
  · cases hk

/-- **A search finds what it finds in the lines of the key.** -/
theorem findSome?_linesOf {column : Str → Option K} {k : K} {f : Str → Option V}
    (h : ∀ l v, f l = some v → column l = some k) (ls : List Str) :
    (linesOf column k ls).findSome? f = ls.findSome? f := by
  rw [← List.head?_filterMap, ← List.head?_filterMap, filterMap_linesOf h]

/-! ## Rows that may fail -/

section Fallible

variable {ε : Type}

/-- Take one line into the map, if it can be read. -/
def takeRowM (row : Str → Except ε (Option (K × V))) (m : Map K V) (line : Str) :
    Except ε (Map K V) :=
  (row line).map fun r =>
    match r with
    | some (k, v) => m.insert k v
    | none => m

/-- The map of all lines, if they can be read. -/
def lastRowsM (row : Str → Except ε (Option (K × V))) (ls : List Str) : Except ε (Map K V) :=
  ls.foldlM (takeRowM row) Map.empty

variable {P : Str → Prop}

theorem foldlM_takeRowM_eq_ok {rowM : Str → Except ε (Option (K × V))}
    {row : Str → Option (K × V)} (h : ∀ l r, rowM l = .ok r ↔ r = row l ∧ P l) {ls : List Str}
    {m m' : Map K V} : ls.foldlM (takeRowM rowM) m = .ok m' ↔
      m' = ls.foldl (takeRow row) m ∧ ∀ l ∈ ls, P l := by
  induction ls generalizing m with
  | nil => simp [pure, Except.pure, eq_comm]
  | cons l ls ih =>
    rw [List.foldlM_cons, List.foldl_cons, List.forall_mem_cons]
    cases hl : rowM l with
    | error e =>
      have hfail : ¬ P l := fun hP => by
        rw [(h l _).mpr ⟨rfl, hP⟩] at hl
        cases hl
      simp [takeRowM, hl, Except.map, bind, Except.bind, hfail]
    | ok r =>
      obtain ⟨rfl, hP⟩ := (h l r).mp hl
      have htake : takeRowM rowM m l = .ok (takeRow row m l) := by
        simp only [takeRowM, takeRow, hl, Except.map]
      rw [htake]
      simp only [bind, Except.bind, hP, true_and]
      exact ih

/-- **A listing is read without failure** if and only if each of its lines is. -/
theorem lastRowsM_eq_ok {rowM : Str → Except ε (Option (K × V))} {row : Str → Option (K × V)}
    (h : ∀ l r, rowM l = .ok r ↔ r = row l ∧ P l) {ls : List Str} {m : Map K V} :
    lastRowsM rowM ls = .ok m ↔ m = lastRows row ls ∧ ∀ l ∈ ls, P l :=
  foldlM_takeRowM_eq_ok h

/-- **A search succeeds** if and only if the lines can be read up to the one that it finds. -/
theorem findSomeM?_eq_ok {f : Str → Except ε (Option V)} {g : Str → Option V}
    (h : ∀ l r, f l = .ok r ↔ r = g l ∧ P l) {ls : List Str} {r : Option V} :
    ls.findSomeM? f = .ok r ↔ r = ls.findSome? g ∧
      ∀ before l after, ls = before ++ l :: after → (∀ b ∈ before, g b = none) → P l := by
  induction ls with
  | nil => simp [List.findSomeM?, pure, Except.pure, eq_comm]
  | cons l ls ih =>
    have hsplit : (∀ before x after, l :: ls = before ++ x :: after → (∀ b ∈ before, g b = none) →
        P x) ↔ P l ∧ (g l = none → ∀ before x after, ls = before ++ x :: after →
          (∀ b ∈ before, g b = none) → P x) := by
      constructor
      · intro hall
        refine ⟨hall [] l ls rfl (by simp), fun hnone before x after hls hbefore => ?_⟩
        refine hall (l :: before) x after (by rw [hls]; rfl) ?_
        exact List.forall_mem_cons.mpr ⟨hnone, hbefore⟩
      · rintro ⟨hl, hrest⟩ before x after hls hbefore
        cases before with
        | nil =>
          cases hls
          exact hl
        | cons b before =>
          cases hls
          obtain ⟨hnone, hbefore⟩ := List.forall_mem_cons.mp hbefore
          exact hrest hnone before x after rfl hbefore
    rw [hsplit, List.findSomeM?, List.findSome?_cons]
    cases hl : f l with
    | error e =>
      have hfail : ¬ P l := fun hP => by
        rw [(h l _).mpr ⟨rfl, hP⟩] at hl
        cases hl
      simp [bind, Except.bind, hfail]
    | ok r' =>
      obtain ⟨rfl, hP⟩ := (h l r').mp hl
      simp only [bind, Except.bind, hP, true_and]
      cases hg : g l with
      | some v => simp [pure, Except.pure, eq_comm]
      | none => simpa using ih

end Fallible

end Text

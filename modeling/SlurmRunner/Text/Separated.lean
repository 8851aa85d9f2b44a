/-
# Lists between separators

A list that is written with a separator between its elements, and the parser that splits a string at
the separator and reads each piece.  What such a parser accepts is said piece by piece
(`mapM_splitOn_eq_ok`), and what is written without the separator in an element reads back
(`mapM_splitOn_intercalate`).
-/
import SlurmRunner.Text.Split
import Mathlib.Data.List.Forall2

namespace Text

variable {α β ε : Type} {c : Char}

/-! ## 1. Computations that fail with an error -/

theorem bind_eq_ok {x : Except ε α} {f : α → Except ε β} {b : β} :
    x >>= f = .ok b ↔ ∃ a, x = .ok a ∧ f a = .ok b := by
  cases x with
  | error e => simp [bind, Except.bind]
  | ok a => simp [bind, Except.bind]

theorem map_eq_ok {x : Except ε α} {f : α → β} {b : β} :
    x.map f = .ok b ↔ ∃ a, x = .ok a ∧ f a = b := by
  cases x with
  | error e => simp [Except.map]
  | ok a => simp [Except.map]

/-- `collect` into a `Result`: every element is accepted. -/
theorem mapM_eq_ok {f : α → Except ε β} {l : List α} {l' : List β} :
    l.mapM f = .ok l' ↔ List.Forall₂ (fun a b => f a = .ok b) l l' := by
  induction l generalizing l' with
  | nil => simp [pure, Except.pure, eq_comm]
  | cons a l ih =>
    rw [List.mapM_cons, List.forall₂_cons_left_iff, bind_eq_ok]
    simp only [bind_eq_ok, ih, pure, Except.pure, Except.ok.injEq]
    constructor
    · rintro ⟨b, hb, bs, hbs, rfl⟩
      exact ⟨b, bs, hb, hbs, rfl⟩
    · rintro ⟨b, bs, hb, hbs, rfl⟩
      exact ⟨b, hb, bs, hbs, rfl⟩

/-! ## 2. Joining and splitting -/

/-- Elements that each follow a separator are those of a list with one more element in front. -/
theorem append_flatMap_eq_intercalate (a : Str) (l : List α) (f : α → Str) :
    a ++ l.flatMap (fun x => c :: f x) = List.intercalate [c] (a :: l.map f) := by
  induction l generalizing a with
  | nil => simp
  | cons x l ih =>
    rw [List.flatMap_cons, List.map_cons, List.intercalate_cons_of_ne_nil (by simp), ← ih]
    simp

/-- What none of the pieces has, a list of them does not have. -/
theorem not_mem_intercalate {x : Char} {pieces : List Str} (hx : x ≠ c)
    (h : ∀ piece ∈ pieces, x ∉ piece) : x ∉ List.intercalate [c] pieces := by
  induction pieces with
  | nil => simp
  | cons piece pieces ih =>
    have hpiece := h piece List.mem_cons_self
    have hrest := ih fun q hq => h q (List.mem_cons_of_mem piece hq)
    by_cases hnil : pieces = []
    · subst hnil
      simpa using hpiece
    · rw [List.intercalate_cons_of_ne_nil hnil]
      simp [hpiece, hx, hrest]

/-- A piece is a part of the list. -/
theorem infix_intercalate {piece : Str} {pieces : List Str} (h : piece ∈ pieces) :
    piece <:+: List.intercalate [c] pieces := by
  induction pieces with
  | nil => cases h
  | cons p pieces ih =>
    by_cases hnil : pieces = []
    · subst hnil
      rcases List.mem_singleton.mp h with rfl
      simp
    · rw [List.intercalate_cons_of_ne_nil hnil]
      rcases List.mem_cons.mp h with rfl | hrest
      · exact ((List.prefix_append _ _).trans (List.prefix_append _ _)).isInfix
      · exact (ih hrest).trans (List.suffix_append _ _).isInfix

theorem intercalate_ne_nil {piece : Str} {pieces : List Str} (h : piece ∈ pieces)
    (hne : piece ≠ []) : List.intercalate [c] pieces ≠ [] := by
  intro hnil
  have hinfix : piece <:+: List.intercalate [c] pieces := infix_intercalate h
  rw [hnil] at hinfix
  exact hne (List.infix_nil.mp hinfix)

/-- A list of two or more pieces has a separator. -/
theorem mem_intercalate {pieces : List Str} (h : 2 ≤ pieces.length) :
    c ∈ List.intercalate [c] pieces := by
  match pieces, h with
  | p :: q :: pieces, _ =>
    rw [List.intercalate_cons_of_ne_nil (by simp)]
    simp

/-- What has no separator and occurs in two parts around one occurs in one of them. -/
theorem infix_append_cons {pat a b : Str} (hc : c ∉ pat) (h : pat <:+: a ++ c :: b) :
    pat <:+: a ∨ pat <:+: b := by
  obtain ⟨x, y, h⟩ := h
  rcases List.append_eq_append_iff.mp h with ⟨as, rfl, -⟩ | ⟨bs, hbs, hb⟩
  · exact .inl ⟨x, as, rfl⟩
  · cases bs with
    | nil => exact .inl ⟨x, [], by simpa using hbs⟩
    | cons z bs =>
      obtain ⟨rfl, rfl⟩ := List.cons.inj hb
      rcases List.append_eq_append_iff.mp hbs with ⟨as, -, rfl⟩ | ⟨as, -, has⟩
      · simp at hc
      · cases as with
        | nil =>
          rw [List.nil_append] at has
          rw [← has] at hc
          simp at hc
        | cons z as =>
          obtain ⟨-, rfl⟩ := List.cons.inj has
          exact .inr ⟨as, y, rfl⟩

/-- What has no separator occurs in a list where it occurs in a piece. -/
theorem infix_of_infix_intercalate {pat : Str} {pieces : List Str} (hc : c ∉ pat) (hne : pat ≠ [])
    (h : pat <:+: List.intercalate [c] pieces) : ∃ piece ∈ pieces, pat <:+: piece := by
  induction pieces with
  | nil => exact absurd (List.infix_nil.mp h) hne
  | cons p pieces ih =>
    by_cases hnil : pieces = []
    · subst hnil
      exact ⟨p, List.mem_cons_self, by simpa using h⟩
    · rw [List.intercalate_cons_of_ne_nil hnil, List.append_assoc, List.singleton_append] at h
      rcases infix_append_cons hc h with hp | hrest
      · exact ⟨p, List.mem_cons_self, hp⟩
      · obtain ⟨piece, hpiece, hinfix⟩ := ih hrest
        exact ⟨piece, List.mem_cons_of_mem p hpiece, hinfix⟩

/-- No piece has a separator. -/
theorem not_mem_of_mem_splitOn {s piece : Str} (h : piece ∈ s.splitOn c) : c ∉ piece := by
  intro hc
  have hsep : (c == c) = false := of_mem_splitOnP (p := fun x => x == c) h hc
  simp at hsep

/-- **Splitting is the inverse of joining** pieces without separators. -/
theorem splitOn_eq_iff {s : Str} {pieces : List Str} : s.splitOn c = pieces ↔
    pieces ≠ [] ∧ (∀ piece ∈ pieces, c ∉ piece) ∧ s = List.intercalate [c] pieces := by
  constructor
  · rintro rfl
    exact ⟨List.splitOn_ne_nil c s, fun _ => not_mem_of_mem_splitOn,
      (List.intercalate_splitOn c).symm⟩
  · rintro ⟨hne, hfree, rfl⟩
    exact List.splitOn_intercalate c hfree hne

/-- The pieces of a string, joined in another order, are the pieces of the result. -/
theorem splitOn_intercalate_of_perm {s : Str} {pieces : List Str} (h : pieces.Perm (s.splitOn c)) :
    (List.intercalate [c] pieces).splitOn c = pieces := by
  refine splitOn_eq_iff.mpr ⟨?_, ?_, rfl⟩
  · rintro rfl
    exact List.splitOn_ne_nil c s h.nil_eq.symm
  · intro piece hpiece
    exact not_mem_of_mem_splitOn (h.subset hpiece)

/-- A string with a separator has two or more pieces. -/
theorem two_le_length_splitOn {s : Str} (h : c ∈ s) : 2 ≤ (s.splitOn c).length := by
  obtain ⟨a, b, rfl, ha⟩ := List.eq_append_cons_of_mem h
  have hb := List.length_pos_iff.mpr (List.splitOn_ne_nil c b)
  rw [List.splitOn_append_cons_self_of_not_mem ha, List.length_cons]
  omega

/-! ## 3. Reading lists -/

/-- **What a parser of lists accepts**, piece by piece. -/
theorem mapM_splitOn_eq_ok {read : Str → Except ε α} {s : Str} {l : List α} :
    (s.splitOn c).mapM read = .ok l ↔ ∃ pieces, pieces ≠ [] ∧ (∀ piece ∈ pieces, c ∉ piece) ∧
      s = List.intercalate [c] pieces ∧ List.Forall₂ (fun p a => read p = .ok a) pieces l := by
  rw [mapM_eq_ok]
  constructor
  · intro h
    obtain ⟨hne, hfree, hs⟩ := splitOn_eq_iff.mp (Eq.refl (s.splitOn c))
    exact ⟨_, hne, hfree, hs, h⟩
  · rintro ⟨pieces, hne, hfree, hs, h⟩
    rw [splitOn_eq_iff.mpr ⟨hne, hfree, hs⟩]
    exact h

/-- Every accepted element was read from a piece. -/
theorem exists_of_mem_right {R : α → β → Prop} {l : List α} {l' : List β}
    (h : List.Forall₂ R l l') {b : β} (hb : b ∈ l') : ∃ a ∈ l, R a b := by
  induction h with
  | nil => cases hb
  | cons hab _ ih =>
    rcases List.mem_cons.mp hb with rfl | hrest
    · exact ⟨_, List.mem_cons_self, hab⟩
    · obtain ⟨a, ha, hr⟩ := ih hrest
      exact ⟨a, List.mem_cons_of_mem _ ha, hr⟩

/-- Every piece was read as an element. -/
theorem exists_of_mem_left {R : α → β → Prop} {l : List α} {l' : List β}
    (h : List.Forall₂ R l l') {a : α} (ha : a ∈ l) : ∃ b ∈ l', R a b := by
  induction h with
  | nil => cases ha
  | cons hab _ ih =>
    rcases List.mem_cons.mp ha with rfl | hrest
    · exact ⟨_, List.mem_cons_self, hab⟩
    · obtain ⟨b, hb, hr⟩ := ih hrest
      exact ⟨b, List.mem_cons_of_mem _ hb, hr⟩

/-- A relation between pieces and elements may be weakened for those that occur. -/
theorem forall₂_imp_of_mem {R S : α → β → Prop} {l : List α} {l' : List β}
    (h : List.Forall₂ R l l') (himp : ∀ a ∈ l, ∀ b ∈ l', R a b → S a b) :
    List.Forall₂ S l l' := by
  induction h with
  | nil => exact .nil
  | cons hab _ ih =>
    refine .cons (himp _ List.mem_cons_self _ List.mem_cons_self hab) (ih ?_)
    intro a ha b hb
    exact himp a (List.mem_cons_of_mem _ ha) b (List.mem_cons_of_mem _ hb)

/-- **A written list reads back.** -/
theorem mapM_splitOn_intercalate {read : Str → Except ε α} {write : α → Str} {l : List α}
    (hne : l ≠ []) (hfree : ∀ a ∈ l, c ∉ write a) (hread : ∀ a ∈ l, read (write a) = .ok a) :
    ((List.intercalate [c] (l.map write)).splitOn c).mapM read = .ok l := by
  refine mapM_splitOn_eq_ok.mpr ⟨l.map write, by simpa using hne, by simpa using hfree, rfl, ?_⟩
  rw [List.forall₂_map_left_iff, List.forall₂_same]
  exact hread

end Text

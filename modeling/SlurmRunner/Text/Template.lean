/-
# Tokens in a template

A token is a percent sign and a letter.  `substitute` puts the values of all tokens into a template
at once, in one pass from left to right; `replace` is `str::replace`, which knows nothing of what
was put in before.  Replacing one more token after a substitution is the substitution of one more
token exactly where the values have made no token of their own, or where nothing is replaced at all
(`replace_substitute_iff`).
-/
import SlurmRunner.Text.Split
import Mathlib.Logic.Function.Basic

namespace Text

/-! ## 1. Replacement and substitution

`replace` puts a value in for one token wherever it stands, `substitute` puts the values of all
tokens in at once. -/

/-- What `str::replace` makes of the characters after the next `skip`. -/
def replaceFrom (pat rep : Str) (skip : Nat) : Str → Str
  | [] => []
  | x :: s =>
    match skip with
    | skip + 1 => replaceFrom pat rep skip s
    | 0 =>
      if pat.isPrefixOf (x :: s) then rep ++ replaceFrom pat rep (pat.length - 1) s
      else x :: replaceFrom pat rep 0 s

/-- `str::replace` of a pattern that is not empty. -/
def replace (pat rep s : Str) : Str := replaceFrom pat rep 0 s

/-- The token of a letter. -/
def token (c : Char) : Str := ['%', c]

/-- The template with the value of each token that has one; all other text is kept. -/
def substitute (value : Char → Option Str) : Str → Str
  | [] => []
  | [x] => [x]
  | x :: y :: s =>
    if x = '%' then
      match value y with
      | some v => v ++ substitute value s
      | none => x :: substitute value (y :: s)
    else x :: substitute value (y :: s)

/-- At how many places a string occurs in another. -/
def occurrences (pat : Str) : Str → Nat
  | [] => 0
  | x :: s => (if pat.isPrefixOf (x :: s) then 1 else 0) + occurrences pat s

section Token

variable {c : Char}

/-- A token is a percent sign and its letter. -/
theorem token_isPrefixOf {x : Char} {s : Str} :
    (token c).isPrefixOf (x :: s) = true ↔ x = '%' ∧ s.head? = some c := by
  cases s with
  | nil => simp [token, List.isPrefixOf]
  | cons y s =>
    simp only [token, List.isPrefixOf, Bool.and_true, Bool.and_eq_true, beq_iff_eq, List.head?_cons,
      Option.some.injEq]
    exact ⟨fun h => ⟨h.1.symm, h.2.symm⟩, fun h => ⟨h.1.symm, h.2.symm⟩⟩

/-- A token is replaced. -/
theorem replace_token (v s : Str) :
    replace (token c) v ('%' :: c :: s) = v ++ replace (token c) v s := by
  have hpre : (token c).isPrefixOf ('%' :: c :: s) = true := token_isPrefixOf.mpr ⟨rfl, rfl⟩
  exact if_pos hpre

/-- Any other character stays. -/
theorem replace_cons {x : Char} {s : Str} (h : ¬ (x = '%' ∧ s.head? = some c)) (v : Str) :
    replace (token c) v (x :: s) = x :: replace (token c) v s := by
  have hpre : ¬ (token c).isPrefixOf (x :: s) = true := fun hx => h (token_isPrefixOf.mp hx)
  exact if_neg hpre

/-- A token is counted. -/
theorem occurrences_token (hc : c ≠ '%') (s : Str) :
    occurrences (token c) ('%' :: c :: s) = 1 + occurrences (token c) s := by
  have hpre : (token c).isPrefixOf ('%' :: c :: s) = true := token_isPrefixOf.mpr ⟨rfl, rfl⟩
  have hletter : ¬ (token c).isPrefixOf (c :: s) = true := fun hx => hc (token_isPrefixOf.mp hx).1
  rw [occurrences, if_pos hpre, occurrences, if_neg hletter, Nat.zero_add]

/-- Nothing else is. -/
theorem occurrences_cons {x : Char} {s : Str} (h : ¬ (x = '%' ∧ s.head? = some c)) :
    occurrences (token c) (x :: s) = occurrences (token c) s := by
  rw [occurrences, if_neg fun hx => h (token_isPrefixOf.mp hx), Nat.zero_add]

theorem occurrences_percent {y : Char} (hy : y ≠ c) (s : Str) :
    occurrences (token c) ('%' :: y :: s) = occurrences (token c) (y :: s) :=
  occurrences_cons fun h => hy (Option.some.inj h.2)

/-- Text without a percent sign ends no token and begins none. -/
theorem occurrences_append {v : Str} (hv : '%' ∉ v) (s : Str) :
    occurrences (token c) (v ++ s) = occurrences (token c) s := by
  induction v with
  | nil => rfl
  | cons x v ih =>
    rw [List.mem_cons, not_or] at hv
    rw [List.cons_append, occurrences_cons fun h => hv.1 h.1.symm, ih hv.2]

/-- Every replacement changes the length by the same amount. -/
theorem length_replace (hc : c ≠ '%') (v s : Str) :
    (replace (token c) v s).length + 2 * occurrences (token c) s =
      s.length + v.length * occurrences (token c) s := by
  induction hlen : s.length using Nat.strong_induction_on generalizing s with
  | _ n ih =>
    cases s with
    | nil =>
      subst hlen
      rfl
    | cons x s =>
      by_cases h : x = '%' ∧ s.head? = some c
      · obtain ⟨rfl, hhead⟩ := h
        obtain ⟨s, rfl⟩ := List.head?_eq_some_iff.mp hhead
        rw [List.length_cons, List.length_cons] at hlen
        have hrest := ih s.length (by omega) s rfl
        rw [replace_token, occurrences_token hc, List.length_append, Nat.mul_add, Nat.mul_add]
        omega
      · rw [List.length_cons] at hlen
        have hrest := ih s.length (by omega) s rfl
        rw [replace_cons h, occurrences_cons h, List.length_cons]
        omega

/-! ## 2. Tokens that are kept

A text with its tokens marked.  Filling it with a value is what a replacement does, and filling it
with the token gives back the text. -/

/-- Text in which `none` stands for a token that is kept for later. -/
abbrev Kept := List (Option Char)

/-- The text with `v` for the token. -/
def fill (v : Str) (w : Kept) : Str := w.flatMap fun x => (x.map fun x => [x]).getD v

@[simp] theorem fill_nil (v : Str) : fill v [] = [] := rfl

@[simp] theorem fill_none (v : Str) (w : Kept) : fill v (none :: w) = v ++ fill v w := rfl

@[simp] theorem fill_some (v : Str) (x : Char) (w : Kept) :
    fill v (some x :: w) = x :: fill v w := rfl

/-- What is kept stays. -/
theorem fill_append_map (v u : Str) (w : Kept) : fill v (u.map some ++ w) = u ++ fill v w := by
  induction u with
  | nil => rfl
  | cons x u ih => rw [List.map_cons, List.cons_append, fill_some, ih, List.cons_append]

/-- The length changes by that of the value for each token. -/
theorem length_fill (v : Str) (w : Kept) :
    (fill v w).length + 2 * w.count none =
      (fill (token c) w).length + v.length * w.count none := by
  induction w with
  | nil => rfl
  | cons x w ih =>
    cases x with
    | none =>
      rw [fill_none, fill_none, List.count_cons_self, List.length_append, List.length_append,
        Nat.mul_add, Nat.mul_add]
      simp only [token, List.length_cons, List.length_nil] at ih ⊢
      omega
    | some x =>
      rw [fill_some, fill_some, List.count_cons_of_ne (by simp), List.length_cons, List.length_cons]
      omega

/-- After a letter that ends no kept token, the token is read where the text goes on with it. -/
theorem head?_fill (hc : c ≠ '%') {w : Kept} :
    (fill (token c) w).head? = some c ↔ ∃ w', w = some c :: w' := by
  cases w with
  | nil => simp
  | cons x w =>
    cases x with
    | none => simp [token, hc.symm]
    | some x => simp

theorem occurrences_fill_none (hc : c ≠ '%') (w : Kept) :
    occurrences (token c) (fill (token c) (none :: w)) =
      1 + occurrences (token c) (fill (token c) w) := occurrences_token hc _

/-- Every marked token occurs in the text. -/
theorem count_none_le (hc : c ≠ '%') (w : Kept) :
    w.count none ≤ occurrences (token c) (fill (token c) w) := by
  induction w with
  | nil => exact Nat.zero_le _
  | cons x w ih =>
    cases x with
    | none =>
      rw [occurrences_fill_none hc, List.count_cons_self]
      omega
    | some x =>
      rw [fill_some, List.count_cons_of_ne (by simp), occurrences]
      omega

/-- Where the text has no token but the kept ones, replacing it fills them. -/
theorem replace_fill (hc : c ≠ '%') (v : Str) {w : Kept}
    (h : occurrences (token c) (fill (token c) w) = w.count none) :
    replace (token c) v (fill (token c) w) = fill v w := by
  induction w with
  | nil => rfl
  | cons x w ih =>
    cases x with
    | none =>
      have hrest : occurrences (token c) (fill (token c) w) = w.count none := by
        rw [occurrences_fill_none hc, List.count_cons_self] at h
        omega
      rw [fill_none, fill_none, ← ih hrest]
      exact replace_token v _
    | some x =>
      rw [fill_some, List.count_cons_of_ne (by simp)] at h
      by_cases htok : x = '%' ∧ (fill (token c) w).head? = some c
      · have hmore := count_none_le hc w
        rw [occurrences, if_pos (token_isPrefixOf.mpr htok)] at h
        omega
      · rw [occurrences_cons htok] at h
        rw [fill_some, fill_some, replace_cons htok, ih h]

/-- Where the text has more tokens, replacing it does something else, unless it does nothing. -/
theorem occurrences_of_replace_fill (hc : c ≠ '%') {v : Str} (hv : v ≠ token c) {w : Kept}
    (h : replace (token c) v (fill (token c) w) = fill v w) :
    occurrences (token c) (fill (token c) w) = w.count none := by
  by_cases hlen : v.length = 2
  · induction w with
    | nil => rfl
    | cons x w ih =>
      cases x with
      | none =>
        have hcons : replace (token c) v (fill (token c) (none :: w)) =
            v ++ replace (token c) v (fill (token c) w) := replace_token v _
        rw [hcons, fill_none] at h
        have hrest := ih (List.append_cancel_left h)
        rw [occurrences_fill_none hc, List.count_cons_self, hrest, Nat.add_comm]
      | some x =>
        by_cases htok : x = '%' ∧ (fill (token c) w).head? = some c
        · obtain ⟨rfl, hhead⟩ := htok
          obtain ⟨w, rfl⟩ := (head?_fill hc).mp hhead
          -- the value stands where the text has the token itself
          rw [fill_some, fill_some, replace_token, fill_some, fill_some] at h
          have hsplit : v ++ replace (token c) v (fill (token c) w) = token c ++ fill v w := h
          exact absurd (List.append_inj_left hsplit hlen) hv
        · rw [fill_some, fill_some, replace_cons htok, List.cons.injEq] at h
          rw [fill_some, List.count_cons_of_ne (by simp), occurrences_cons htok]
          exact ih h.2
  · -- each token too many would change the length
    have hreplaced := length_replace hc v (fill (token c) w)
    have hfilled := length_fill (c := c) v w
    rw [h] at hreplaced
    have hdiff : v.length * occurrences (token c) (fill (token c) w) + 2 * w.count none =
        v.length * w.count none + 2 * occurrences (token c) (fill (token c) w) := by omega
    by_contra hne
    rcases Nat.lt_or_gt_of_ne hne with hlt | hlt
    · obtain ⟨d, hd⟩ := Nat.exists_eq_add_of_lt hlt
      rw [hd] at hdiff
      simp only [Nat.mul_add, Nat.mul_one] at hdiff
      have hmul : v.length * d + v.length = 2 * d + 2 := by omega
      have hfactor : v.length * (d + 1) = 2 * (d + 1) := by rw [Nat.mul_add, Nat.mul_add]; omega
      exact hlen (Nat.eq_of_mul_eq_mul_right (Nat.succ_pos d) hfactor)
    · obtain ⟨d, hd⟩ := Nat.exists_eq_add_of_lt hlt
      rw [hd] at hdiff
      simp only [Nat.mul_add, Nat.mul_one] at hdiff
      have hfactor : v.length * (d + 1) = 2 * (d + 1) := by rw [Nat.mul_add, Nat.mul_add]; omega
      exact hlen (Nat.eq_of_mul_eq_mul_right (Nat.succ_pos d) hfactor)

/-! ## 3. One more token

A replacement after a substitution, compared with the substitution of one token more. -/

variable {value : Char → Option Str}

/-- The substitution of the other tokens, which keeps those of the letter `c`. -/
def keep (c : Char) (value : Char → Option Str) : Str → Kept
  | [] => []
  | [x] => [some x]
  | x :: y :: s =>
    if x = '%' then
      if y = c then none :: keep c value s
      else
        match value y with
        | some v => v.map some ++ keep c value s
        | none => some x :: keep c value (y :: s)
    else some x :: keep c value (y :: s)

/-- The kept tokens filled with a value are that value substituted too. -/
theorem fill_keep (v s : Str) :
    fill v (keep c value s) = substitute (Function.update value c (some v)) s := by
  fun_induction keep c value s with
  | case1 => rfl
  | case2 x => rfl
  | case3 s ih => rw [fill_none, substitute, if_pos rfl, Function.update_self, ih]
  | case4 y s hy v' hv' ih =>
    rw [fill_append_map, substitute, if_pos rfl, Function.update_of_ne hy, hv', ih]
  | case5 y s hy hnone ih =>
    rw [fill_some, substitute, if_pos rfl, Function.update_of_ne hy, hnone, ih]
  | case6 x y s hx ih => rw [fill_some, substitute, if_neg hx, ih]

theorem substitute_cons_of_ne {x : Char} (hx : x ≠ '%') (s : Str) :
    substitute value (x :: s) = x :: substitute value s := by
  cases s with
  | nil => rfl
  | cons y s => rw [substitute, if_neg hx]

/-- Without values everything is kept. -/
theorem substitute_none (s : Str) : substitute (fun _ => none) s = s := by
  induction s with
  | nil => rfl
  | cons x s ih =>
    cases s with
    | nil => rfl
    | cons y s =>
      rw [substitute, ih]
      exact ite_self _

/-- A letter without a value is as good as one whose value is its token. -/
theorem substitute_update_token (hc : value c = none) (hne : c ≠ '%') (s : Str) :
    substitute (Function.update value c (some (token c))) s = substitute value s := by
  fun_induction substitute value s with
  | case1 => rfl
  | case2 x => rfl
  | case3 y s v hv ih =>
    have hy : y ≠ c := by
      rintro rfl
      rw [hc] at hv
      cases hv
    rw [substitute, if_pos rfl, Function.update_of_ne hy, hv, ih]
  | case4 y s hnone ih =>
    by_cases hy : y = c
    · subst hy
      have hletter : substitute value (y :: s) = y :: substitute value s :=
        substitute_cons_of_ne hne s
      rw [hletter, substitute_cons_of_ne hne] at ih
      rw [hletter, ← (List.cons.inj ih).2, substitute, if_pos rfl, Function.update_self]
      rfl
    · rw [substitute, if_pos rfl, Function.update_of_ne hy, hnone, ih]
  | case5 x y s hx ih => rw [substitute, if_neg hx, ih]

/-- As many tokens are kept as the template has. -/
theorem count_keep (hpercent : value '%' = none) (hne : c ≠ '%') (s : Str) :
    (keep c value s).count none = occurrences (token c) s := by
  fun_induction keep c value s with
  | case1 => rfl
  | case2 x =>
    have hlast : ¬ (x = '%' ∧ ([] : Str).head? = some c) := by simp
    exact (occurrences_cons hlast).symm
  | case3 s ih => rw [List.count_cons_self, ih, occurrences_token hne, Nat.add_comm]
  | case4 y s hy v hv ih =>
    have hy' : y ≠ '%' := by
      rintro rfl
      rw [hpercent] at hv
      cases hv
    have hnone : (v.map some).count (none : Option Char) = 0 := by
      refine List.count_eq_zero_of_not_mem fun hmem => ?_
      obtain ⟨x, -, hx⟩ := List.mem_map.mp hmem
      cases hx
    rw [List.count_append, hnone, Nat.zero_add, ih, occurrences_percent hy,
      occurrences_cons fun h => hy' h.1]
  | case5 y s hy hv ih =>
    rw [List.count_cons_of_ne (by simp), ih, occurrences_percent hy]
  | case6 x y s hx ih =>
    rw [List.count_cons_of_ne (by simp), ih, occurrences_cons fun h => hx h.1]

/-- Replacing a token by itself changes nothing. -/
theorem replace_self (s : Str) : replace (token c) (token c) s = s := by
  induction hlen : s.length using Nat.strong_induction_on generalizing s with
  | _ n ih =>
    cases s with
    | nil => rfl
    | cons x s =>
      rw [List.length_cons] at hlen
      by_cases h : x = '%' ∧ s.head? = some c
      · obtain ⟨rfl, hhead⟩ := h
        obtain ⟨s, rfl⟩ := List.head?_eq_some_iff.mp hhead
        rw [List.length_cons] at hlen
        rw [replace_token, ih s.length (by omega) s rfl]
        rfl
      · rw [replace_cons h, ih s.length (by omega) s rfl]

/-- **Replacing one more token** is substituting it together with the others, if and only if the
values of the others have made no such token, or the replacement is the token itself. -/
theorem replace_substitute_iff (hpercent : value '%' = none) (hc : value c = none) (hne : c ≠ '%')
    (v s : Str) :
    replace (token c) v (substitute value s) = substitute (Function.update value c (some v)) s ↔
      occurrences (token c) (substitute value s) = occurrences (token c) s ∨ v = token c := by
  have hkept : substitute value s = fill (token c) (keep c value s) := by
    rw [fill_keep, substitute_update_token hc hne]
  have hcount : (keep c value s).count none = occurrences (token c) s := count_keep hpercent hne s
  rw [hkept, ← fill_keep, ← hcount]
  by_cases hv : v = token c
  · subst hv
    exact iff_of_true (replace_self _) (.inr rfl)
  · constructor
    · intro h
      exact .inl (occurrences_of_replace_fill hne hv h)
    · rintro (h | h)
      · exact replace_fill hne v h
      · exact absurd h hv

/-- The letter begins a substituted text only where it begins the template. -/
theorem head?_substitute (hne : c ≠ '%')
    (hplain : ∀ y v, value y = some v → v ≠ [] ∧ '%' ∉ v ∧ c ∉ v) {x : Char} {s : Str} :
    (substitute value (x :: s)).head? = some c ↔ x = c := by
  cases s with
  | nil => simp [substitute]
  | cons y s =>
    rw [substitute]
    by_cases hx : x = '%'
    · subst hx
      rw [if_pos rfl]
      cases hv : value y with
      | none => simp
      | some v =>
        obtain ⟨hnil, -, hletter⟩ := hplain y v hv
        obtain ⟨z, v, rfl⟩ := List.exists_cons_of_ne_nil hnil
        rw [List.mem_cons, not_or] at hletter
        simp [Ne.symm hletter.1, Ne.symm hne]
    · rw [if_neg hx]
      simp

/-- Values without a percent sign and without the letter make no token. -/
theorem occurrences_substitute (hpercent : value '%' = none) (hc : value c = none)
    (hne : c ≠ '%')
    (hplain : ∀ y v, value y = some v → v ≠ [] ∧ '%' ∉ v ∧ c ∉ v) (s : Str) :
    occurrences (token c) (substitute value s) = occurrences (token c) s := by
  fun_induction substitute value s with
  | case1 => rfl
  | case2 x => rfl
  | case3 y s v hv ih =>
    have hy : y ≠ c := by
      rintro rfl
      rw [hc] at hv
      cases hv
    have hy' : y ≠ '%' := by
      rintro rfl
      rw [hpercent] at hv
      cases hv
    rw [occurrences_append (hplain y v hv).2.1, ih, occurrences_percent hy,
      occurrences_cons fun h => hy' h.1]
  | case4 y s hnone ih =>
    have hhead : (substitute value (y :: s)).head? = some c ↔ y = c :=
      head?_substitute hne hplain
    by_cases hy : y = c
    · subst hy
      rw [substitute_cons_of_ne hne] at ih ⊢
      rw [occurrences_token hne, occurrences_token hne]
      rw [occurrences_cons fun h => hne h.1, occurrences_cons fun h => hne h.1] at ih
      rw [ih]
    · rw [occurrences_cons fun h => hy (hhead.mp h.2), ih, occurrences_percent hy]
  | case5 x y s hx ih =>
    rw [occurrences_cons fun h => hx h.1, ih, occurrences_cons fun h => hx h.1]

end Token

end Text

/-
# Text from bytes

`String::from_utf8_lossy`: the text of a command's output, whatever bytes it has written.  Bytes
that are no UTF-8 become replacement characters, one for each maximal part that could begin a
character.
-/
import Mathlib.Algebra.Group.Nat.Defs
import SlurmRunner.Text.Split

namespace Text

/-- The character that stands for bytes which are none. -/
def replacement : Char := '\uFFFD'

/-- A byte that is not the first of its character. -/
def isContinuation (b : UInt8) : Bool := 0x80 ≤ b && b ≤ 0xBF

/-- Whether `c` may be the second byte of a character whose first is `b`: no overlong forms, no
surrogates, nothing above `U+10FFFF`. -/
def isSecond (b c : UInt8) : Bool :=
  if b = 0xE0 then 0xA0 ≤ c && c ≤ 0xBF
  else if b = 0xED then 0x80 ≤ c && c ≤ 0x9F
  else if b = 0xF0 then 0x90 ≤ c && c ≤ 0xBF
  else if b = 0xF4 then 0x80 ≤ c && c ≤ 0x8F
  else isContinuation c

/-- How many bytes a character has whose first byte is `b`; none if no character begins so. -/
def charWidth (b : UInt8) : Nat :=
  if b < 0x80 then 1
  else if 0xC2 ≤ b && b ≤ 0xDF then 2
  else if 0xE0 ≤ b && b ≤ 0xEF then 3
  else if 0xF0 ≤ b && b ≤ 0xF4 then 4
  else 0

/-- The bits of a continuation byte, behind the bits `acc` of the bytes before it. -/
def pushBits (acc : Nat) (b : UInt8) : Nat := acc * 64 + b.toNat % 64

/-- How many of the bytes `bs` belong with the first byte `b`, of the `n` that its character
needs. -/
def tailLength (b : UInt8) (n : Nat) (bs : List UInt8) : Nat :=
  match n, bs with
  | n + 1, c :: cs =>
    if isSecond b c then 1 + ((cs.take n).takeWhile isContinuation).length else 0
  | _, _ => 0

/-- The character at the head of `b :: bs`, and how many of the bytes `bs` it takes. -/
def firstChar (b : UInt8) (bs : List UInt8) : Char × Nat :=
  let width := charWidth b
  let taken := tailLength b (width - 1) bs
  if width = taken + 1 then
    -- the leading bits of the first byte say only how many bytes follow
    let lead := if width = 1 then b.toNat else b.toNat % 2 ^ (7 - width)
    (Char.ofNat ((bs.take taken).foldl pushBits lead), taken)
  else (replacement, taken)

/-- The text of the bytes after the next `skip`. -/
def lossyFrom (skip : Nat) : List UInt8 → Str
  | [] => []
  | b :: bs =>
    match skip with
    | skip + 1 => lossyFrom skip bs
    | 0 => (firstChar b bs).1 :: lossyFrom (firstChar b bs).2 bs

/-- A character begins here. -/
theorem lossyFrom_zero (b : UInt8) (bs : List UInt8) :
    lossyFrom 0 (b :: bs) = (firstChar b bs).1 :: lossyFrom (firstChar b bs).2 bs := rfl

/-- The byte belongs to the character before it. -/
theorem lossyFrom_succ (skip : Nat) (b : UInt8) (bs : List UInt8) :
    lossyFrom (skip + 1) (b :: bs) = lossyFrom skip bs := rfl

/-- `String::from_utf8_lossy`. -/
def fromUtf8Lossy (bytes : List UInt8) : Str := lossyFrom 0 bytes

example : fromUtf8Lossy [0x41, 0xC3, 0xA9, 0xE2, 0x82, 0xAC, 0xFF, 0xE2, 0x82, 0x42, 0xF0, 0x9F,
    0x98, 0x80, 0xED, 0xA0, 0x80, 0xF0, 0x9F] =
    "Aé€\uFFFD\uFFFDB😀\uFFFD\uFFFD\uFFFD\uFFFD" := by decide +kernel

/-- The text of the bytes after the next `skip`, if they are the bytes of a text. -/
def utf8From (skip : Nat) : List UInt8 → Option Str
  | [] => some []
  | b :: bs =>
    match skip with
    | skip + 1 => utf8From skip bs
    | 0 =>
      if charWidth b = tailLength b (charWidth b - 1) bs + 1 then
        (utf8From (firstChar b bs).2 bs).map ((firstChar b bs).1 :: ·)
      else none

/-- `String::from_utf8`. -/
def fromUtf8 (bytes : List UInt8) : Option Str := utf8From 0 bytes

example : fromUtf8 [0x41, 0xC3, 0xA9, 0xE2, 0x82, 0xAC] = some "Aé€".toList ∧
    fromUtf8 [0x41, 0xFF] = none ∧ fromUtf8 [0xE2, 0x82] = none := by decide +kernel

/-! ## A newline begins a character, whatever stands before it -/

/-- No character goes on over a newline. -/
theorem tailLength_append_newline (c : UInt8) (n : Nat) (a b : List UInt8) :
    tailLength c n (a ++ 0x0A :: b) = tailLength c n a := by
  cases n with
  | zero => simp [tailLength]
  | succ n =>
    cases a with
    | nil =>
      have hsecond : isSecond c 0x0A = false := by simp [isSecond, isContinuation]
      rw [List.nil_append, tailLength, hsecond]
      rfl
    | cons d ds =>
      have hrun : ((ds ++ 0x0A :: b).take n).takeWhile isContinuation =
          (ds.take n).takeWhile isContinuation := by
        have hstop : ((0x0A :: b).take (n - ds.length)).takeWhile isContinuation = [] := by
          cases n - ds.length with
          | zero => rfl
          | succ m =>
            rw [List.take_succ_cons]
            exact List.takeWhile_cons_of_neg (by decide)
        rw [List.take_append, List.takeWhile_append, hstop, List.append_nil]
        split
        · rename_i hall
          exact (List.takeWhile_prefix _).eq_of_length hall |>.symm
        · rfl
      rw [List.cons_append, tailLength, tailLength, hrun]

/-- The bytes of a character are taken from those that are there. -/
theorem tailLength_le (c : UInt8) (n : Nat) (bs : List UInt8) : tailLength c n bs ≤ bs.length := by
  unfold tailLength
  split
  · rename_i n d ds
    split
    · have hrun := (List.takeWhile_prefix isContinuation (l := ds.take n)).length_le
      rw [List.length_take] at hrun
      rw [List.length_cons]
      omega
    · omega
  · omega

theorem firstChar_snd_le (c : UInt8) (bs : List UInt8) : (firstChar c bs).2 ≤ bs.length := by
  have hlen := tailLength_le c (charWidth c - 1) bs
  unfold firstChar
  dsimp only
  split
  · exact hlen
  · exact hlen

/-- A character does not go on behind a newline. -/
theorem firstChar_append_newline (c : UInt8) (a b : List UInt8) :
    firstChar c (a ++ 0x0A :: b) = firstChar c a := by
  have hlen := tailLength_le c (charWidth c - 1) a
  unfold firstChar
  dsimp only
  rw [tailLength_append_newline, List.take_append_of_le_length hlen]

theorem lossyFrom_append_newline (a b : List UInt8) (skip : Nat) (h : skip ≤ a.length) :
    lossyFrom skip (a ++ 0x0A :: b) = lossyFrom skip a ++ '\n' :: fromUtf8Lossy b := by
  induction a generalizing skip with
  | nil =>
    obtain rfl : skip = 0 := Nat.le_zero.mp h
    have hfirst : firstChar 0x0A b = ('\n', 0) := by simp [firstChar, tailLength, charWidth]
    rw [List.nil_append, lossyFrom_zero, hfirst]
    rfl
  | cons c cs ih =>
    rw [List.cons_append]
    cases skip with
    | succ skip =>
      rw [lossyFrom_succ, lossyFrom_succ]
      exact ih skip (Nat.le_of_succ_le_succ h)
    | zero =>
      rw [lossyFrom_zero, lossyFrom_zero, firstChar_append_newline,
        ih _ (firstChar_snd_le c cs), List.cons_append]

/-- **Lines are decoded one by one.** -/
theorem fromUtf8Lossy_append_newline (a b : List UInt8) :
    fromUtf8Lossy (a ++ 0x0A :: b) = fromUtf8Lossy a ++ '\n' :: fromUtf8Lossy b :=
  lossyFrom_append_newline a b 0 (Nat.zero_le _)

/-- A character begins here, and it must be complete. -/
theorem utf8From_zero (b : UInt8) (bs : List UInt8) :
    utf8From 0 (b :: bs) = if charWidth b = tailLength b (charWidth b - 1) bs + 1 then
      (utf8From (firstChar b bs).2 bs).map ((firstChar b bs).1 :: ·) else none := rfl

/-- The byte belongs to the character before it. -/
theorem utf8From_succ (skip : Nat) (b : UInt8) (bs : List UInt8) :
    utf8From (skip + 1) (b :: bs) = utf8From skip bs := rfl

theorem utf8From_append_newline (a b : List UInt8) (skip : Nat) (h : skip ≤ a.length) :
    utf8From skip (a ++ 0x0A :: b) =
      (utf8From skip a).bind fun s => (fromUtf8 b).map fun rest => s ++ '\n' :: rest := by
  induction a generalizing skip with
  | nil =>
    obtain rfl : skip = 0 := Nat.le_zero.mp h
    have hfirst : firstChar 0x0A b = ('\n', 0) := by simp [firstChar, tailLength, charWidth]
    have hwidth : charWidth 0x0A = tailLength 0x0A (charWidth 0x0A - 1) b + 1 := by
      simp [tailLength, charWidth]
    rw [List.nil_append, utf8From_zero, hfirst, if_pos hwidth]
    rfl
  | cons c cs ih =>
    rw [List.cons_append]
    cases skip with
    | succ skip =>
      rw [utf8From_succ, utf8From_succ]
      exact ih skip (Nat.le_of_succ_le_succ h)
    | zero =>
      rw [utf8From_zero, utf8From_zero, firstChar_append_newline, tailLength_append_newline,
        ih _ (firstChar_snd_le c cs)]
      split
      · rw [Option.bind_map, Option.map_bind]
        refine Option.bind_congr fun s _ => ?_
        rw [Function.comp_apply, Option.map_map]
        rfl
      · rfl

/-- **A text is decoded line by line**, and a part of it that a newline ends is a text. -/
theorem fromUtf8_append_newline (a b : List UInt8) : fromUtf8 (a ++ 0x0A :: b) =
    (fromUtf8 a).bind fun s => (fromUtf8 b).map fun rest => s ++ '\n' :: rest :=
  utf8From_append_newline a b 0 (Nat.zero_le _)

/-! ## A newline comes from its own byte -/

theorem le_foldl_pushBits (acc : Nat) (bs : List UInt8) : acc ≤ bs.foldl pushBits acc := by
  induction bs generalizing acc with
  | nil => exact Nat.le_refl acc
  | cons b bs ih =>
    have hpush : acc ≤ pushBits acc b := by
      unfold pushBits
      omega
    exact hpush.trans (ih _)

/-- Two bytes of a character are enough to tell that it is no control character. -/
theorem le_pushBits_second {b c : UInt8} (hwidth : 1 < charWidth b) (hc : isSecond b c = true) :
    16 ≤ pushBits (b.toNat % 2 ^ (7 - charWidth b)) c := by
  unfold charWidth at hwidth ⊢
  unfold isSecond isContinuation at hc
  unfold pushBits
  simp only [UInt8.lt_iff_toNat_lt, UInt8.le_iff_toNat_le, Bool.and_eq_true, decide_eq_true_eq,
    ← UInt8.toNat_inj, UInt8.reduceToNat] at *
  have hn : b.toNat < 256 := b.toNat_lt
  have hm : c.toNat < 256 := c.toNat_lt
  grind

theorem ofNat_ne_newline {n : Nat} (hn : n ≠ 10) : Char.ofNat n ≠ '\n' := by
  intro h
  have hcode : (Char.ofNat n).toNat = 10 := congrArg Char.toNat h
  by_cases hvalid : n.isValidChar
  · have hchar : Char.ofNat n = Char.ofNatAux n hvalid := dif_pos hvalid
    rw [hchar] at hcode
    exact hn hcode
  · have hchar : (Char.ofNat n).toNat = 0 := congrArg Char.toNat (dif_neg hvalid)
    rw [hchar] at hcode
    cases hcode

/-- A character that takes further bytes has a second one. -/
theorem exists_second {b : UInt8} {n taken : Nat} {bs : List UInt8}
    (h : tailLength b n bs = taken + 1) : ∃ c cs, bs = c :: cs ∧ isSecond b c = true := by
  unfold tailLength at h
  split at h
  · rename_i c cs
    split at h
    · rename_i hc
      exact ⟨c, cs, rfl, hc⟩
    · cases h
  · cases h

/-- Only the byte of a newline is decoded as one. -/
theorem firstChar_ne_newline {b : UInt8} {bs : List UInt8} (hb : b ≠ 0x0A)
    (hwidth : charWidth b = tailLength b (charWidth b - 1) bs + 1) : (firstChar b bs).1 ≠ '\n' := by
  unfold firstChar
  dsimp only
  rw [if_pos hwidth]
  refine ofNat_ne_newline ?_
  cases htaken : tailLength b (charWidth b - 1) bs with
  | zero =>
    -- one byte, so the code of the character is that byte
    rw [hwidth, htaken, if_pos rfl, List.take_zero, List.foldl_nil]
    exact fun h => hb (UInt8.toNat_inj.mp h)
  | succ taken =>
    obtain ⟨c, cs, rfl, hc⟩ := exists_second htaken
    have hmore : 1 < charWidth b := by omega
    have hle := (le_pushBits_second hmore hc).trans (le_foldl_pushBits _ (cs.take taken))
    rw [if_neg (Nat.ne_of_gt hmore), List.take_succ_cons, List.foldl_cons]
    omega

theorem not_mem_of_utf8From {bs : List UInt8} {skip : Nat} {s : Str} (hbs : 0x0A ∉ bs)
    (h : utf8From skip bs = some s) : '\n' ∉ s := by
  induction bs generalizing skip s with
  | nil =>
    cases h
    exact List.not_mem_nil
  | cons b bs ih =>
    rw [List.mem_cons, not_or] at hbs
    cases skip with
    | succ skip => exact ih hbs.2 h
    | zero =>
      rw [utf8From_zero] at h
      split at h
      · rename_i hwidth
        obtain ⟨rest, hrest, rfl⟩ := Option.map_eq_some_iff.mp h
        rw [List.mem_cons, not_or]
        exact ⟨(firstChar_ne_newline (Ne.symm hbs.1) hwidth).symm, ih hbs.2 hrest⟩
      · cases h

/-- Bytes without a newline are the bytes of one line. -/
theorem not_mem_of_fromUtf8 {bs : List UInt8} {s : Str} (hbs : 0x0A ∉ bs)
    (h : fromUtf8 bs = some s) : '\n' ∉ s :=
  not_mem_of_utf8From hbs h

/-- Some bytes make some text. -/
theorem ne_nil_of_fromUtf8 {bs : List UInt8} {s : Str} (hbs : bs ≠ []) (h : fromUtf8 bs = some s) :
    s ≠ [] := by
  rcases bs with _ | ⟨b, bs⟩
  · exact absurd rfl hbs
  · rw [fromUtf8, utf8From_zero] at h
    split at h
    · obtain ⟨rest, -, rfl⟩ := Option.map_eq_some_iff.mp h
      exact List.cons_ne_nil _ _
    · cases h

end Text

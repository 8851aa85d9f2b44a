/-
# Bytes from text

`fromUtf8` accepts exactly the bytes of texts, and reads each back as the text that it is the
encoding of (`fromUtf8_eq_some_iff`).  The encoding is Lean's own.
-/
import SlurmRunner.Text.Utf8

namespace Text

/-- The bytes of a text. -/
def toUtf8 (s : Str) : List UInt8 := s.flatMap String.utf8EncodeChar

/-! ## 1. The bytes of one character

One to four bytes, by the size of its code. -/

/-- These are the bytes of the character with the number `v`. -/
inductive Encodes (v : Nat) : List UInt8 → Prop
  | one {b : UInt8} (hv : v < 0x80) (hb : b.toNat = v) : Encodes v [b]
  | two {b c : UInt8} (hv : 0x80 ≤ v ∧ v < 0x800) (hb : b.toNat = v / 64 + 0xC0)
      (hc : c.toNat = v % 64 + 0x80) : Encodes v [b, c]
  | three {b c d : UInt8} (hv : 0x800 ≤ v ∧ v < 0x10000) (hsurrogate : v < 0xD800 ∨ 0xDFFF < v)
      (hb : b.toNat = v / 4096 + 0xE0) (hc : c.toNat = v / 64 % 64 + 0x80)
      (hd : d.toNat = v % 64 + 0x80) : Encodes v [b, c, d]
  | four {b c d e : UInt8} (hv : 0x10000 ≤ v ∧ v < 0x110000) (hb : b.toNat = v / 262144 + 0xF0)
      (hc : c.toNat = v / 4096 % 64 + 0x80) (hd : d.toNat = v / 64 % 64 + 0x80)
      (he : e.toNat = v % 64 + 0x80) : Encodes v [b, c, d, e]

theorem toNat_ofNat_of_lt {n : Nat} (h : n < 256) : (UInt8.ofNat n).toNat = n :=
  UInt8.toNat_ofNat_of_lt' h

/-- Lean's encoding is this one. -/
theorem encodes_utf8EncodeChar (c : Char) : Encodes c.toNat (String.utf8EncodeChar c) := by
  have hvalid : c.toNat < 0xD800 ∨ 0xDFFF < c.toNat ∧ c.toNat < 0x110000 := c.valid
  have hval : c.val.toNat = c.toNat := rfl
  unfold String.utf8EncodeChar
  dsimp only
  rw [hval]
  split
  · exact .one (by omega) (toNat_ofNat_of_lt (by omega))
  · split
    · refine .two (by omega) ?_ ?_
      · rw [toNat_ofNat_of_lt (by omega)]
        omega
      · rw [toNat_ofNat_of_lt (by omega)]
    · split
      · refine .three (by omega) (by omega) ?_ ?_ ?_
        · rw [toNat_ofNat_of_lt (by omega)]
          omega
        · rw [toNat_ofNat_of_lt (by omega)]
        · rw [toNat_ofNat_of_lt (by omega)]
      · refine .four (by omega) ?_ ?_ ?_ ?_
        · rw [toNat_ofNat_of_lt (by omega)]
          omega
        · rw [toNat_ofNat_of_lt (by omega)]
        · rw [toNat_ofNat_of_lt (by omega)]
        · rw [toNat_ofNat_of_lt (by omega)]

/-- A character has one encoding. -/
theorem Encodes.unique {v : Nat} {bs bs' : List UInt8} (h : Encodes v bs) (h' : Encodes v bs') :
    bs = bs' := by
  have heq : ∀ {b b' : UInt8}, b.toNat = b'.toNat → b = b' := fun hb => UInt8.toNat_inj.mp hb
  cases h <;> cases h'
  case one.one b hv hb b' _ hb' => rw [heq (hb.trans hb'.symm)]
  case two.two b c hv hb hc b' c' _ hb' hc' => rw [heq (hb.trans hb'.symm), heq (hc.trans hc'.symm)]
  case three.three b c d hv _ hb hc hd b' c' d' _ _ hb' hc' hd' =>
    rw [heq (hb.trans hb'.symm), heq (hc.trans hc'.symm), heq (hd.trans hd'.symm)]
  case four.four b c d e hv hb hc hd he b' c' d' e' _ hb' hc' hd' he' =>
    rw [heq (hb.trans hb'.symm), heq (hc.trans hc'.symm), heq (hd.trans hd'.symm),
      heq (he.trans he'.symm)]
  all_goals omega

/-! ## 2. The decoder on them

The decoder takes just the bytes of the character, and computes its code from them. -/

theorem isContinuation_iff {b : UInt8} :
    isContinuation b = true ↔ 0x80 ≤ b.toNat ∧ b.toNat ≤ 0xBF := by
  simp [isContinuation, UInt8.le_iff_toNat_le]

theorem isSecond_iff {b c : UInt8} : isSecond b c = true ↔
    0x80 ≤ c.toNat ∧ c.toNat ≤ 0xBF ∧ (b.toNat = 0xE0 → 0xA0 ≤ c.toNat) ∧
      (b.toNat = 0xED → c.toNat ≤ 0x9F) ∧ (b.toNat = 0xF0 → 0x90 ≤ c.toNat) ∧
      (b.toNat = 0xF4 → c.toNat ≤ 0x8F) := by
  have hb : ∀ k : UInt8, b = k ↔ b.toNat = k.toNat := fun k => UInt8.toNat_inj.symm
  unfold isSecond
  simp only [hb]
  split
  · simp [UInt8.le_iff_toNat_le, *]
    omega
  · split
    · simp [UInt8.le_iff_toNat_le, *]
      omega
    · split
      · simp [UInt8.le_iff_toNat_le, *]
        omega
      · split
        · simp [UInt8.le_iff_toNat_le, *]
          omega
        · rw [isContinuation_iff]
          simp_all

theorem charWidth_eq (b : UInt8) : charWidth b =
    if b.toNat < 0x80 then 1
    else if 0xC2 ≤ b.toNat ∧ b.toNat ≤ 0xDF then 2
    else if 0xE0 ≤ b.toNat ∧ b.toNat ≤ 0xEF then 3
    else if 0xF0 ≤ b.toNat ∧ b.toNat ≤ 0xF4 then 4
    else 0 := by
  simp [charWidth, UInt8.le_iff_toNat_le, UInt8.lt_iff_toNat_lt]

/-- **The decoder reads one character back**, whatever follows. -/
theorem Encodes.firstChar_eq {v : Nat} {b : UInt8} {bs : List UInt8} (h : Encodes v (b :: bs))
    (rest : List UInt8) :
    charWidth b = tailLength b (charWidth b - 1) (bs ++ rest) + 1 ∧
      firstChar b (bs ++ rest) = (Char.ofNat v, bs.length) := by
  have hwidth := charWidth_eq b
  cases h with
  | one hv hb =>
    rw [hb, if_pos hv] at hwidth
    simp [firstChar, hwidth, tailLength, hb]
  | @two _ c hv hb hc =>
    rw [hb, if_neg (by omega), if_pos (by omega)] at hwidth
    have hsecond : isSecond b c = true := isSecond_iff.mpr (by omega)
    have hcode : pushBits (b.toNat % 32) c = v := by
      rw [pushBits, hb, hc]
      omega
    simp [firstChar, hwidth, tailLength, hsecond, hcode]
  | @three _ c d hv hsurrogate hb hc hd =>
    rw [hb, if_neg (by omega), if_neg (by omega), if_pos (by omega)] at hwidth
    have hsecond : isSecond b c = true := isSecond_iff.mpr (by omega)
    have hthird : isContinuation d = true := isContinuation_iff.mpr (by omega)
    have hcode : pushBits (pushBits (b.toNat % 16) c) d = v := by
      rw [pushBits, pushBits, hb, hc, hd]
      omega
    simp [firstChar, hwidth, tailLength, hsecond, hthird, hcode]
  | @four _ c d e hv hb hc hd he =>
    rw [hb, if_neg (by omega), if_neg (by omega), if_neg (by omega), if_pos (by omega)] at hwidth
    have hsecond : isSecond b c = true := isSecond_iff.mpr (by omega)
    have hthird : isContinuation d = true := isContinuation_iff.mpr (by omega)
    have hfourth : isContinuation e = true := isContinuation_iff.mpr (by omega)
    have hcode : pushBits (pushBits (pushBits (b.toNat % 8) c) d) e = v := by
      rw [pushBits, pushBits, pushBits, hb, hc, hd, he]
      omega
    simp [firstChar, hwidth, tailLength, hsecond, hthird, hfourth, hcode]

/-- The bytes that belong with a first byte, where there are as many as it needs. -/
theorem exists_tail {b : UInt8} {n : Nat} {bs : List UInt8} (h : tailLength b (n + 1) bs = n + 1) :
    ∃ c cs rest, bs = c :: (cs ++ rest) ∧ cs.length = n ∧ isSecond b c = true ∧
      ∀ x ∈ cs, isContinuation x = true := by
  obtain ⟨c, cs, rfl, hc⟩ := exists_second h
  rw [tailLength, if_pos hc] at h
  have hprefix := List.takeWhile_prefix isContinuation (l := cs.take n)
  have hlength : ((cs.take n).takeWhile isContinuation).length = n := by omega
  have hle : (cs.take n).length ≤ n := List.length_take_le n cs
  have hall : (cs.take n).takeWhile isContinuation = cs.take n :=
    hprefix.eq_of_length_le (by omega)
  rw [hall] at hlength
  refine ⟨c, cs.take n, cs.drop n, by rw [List.take_append_drop], hlength, hc, ?_⟩
  exact List.takeWhile_eq_self_iff.mp hall

/-- **Bytes that the decoder takes for a character** are the bytes of one. -/
theorem encodes_of_width {b : UInt8} {bs : List UInt8}
    (h : charWidth b = tailLength b (charWidth b - 1) bs + 1) :
    ∃ v, v.isValidChar ∧ Encodes v (b :: bs.take (tailLength b (charWidth b - 1) bs)) := by
  have hwidth := charWidth_eq b
  have hcases : charWidth b = 1 ∧ b.toNat < 0x80 ∨
      charWidth b = 2 ∧ 0xC2 ≤ b.toNat ∧ b.toNat ≤ 0xDF ∨
      charWidth b = 3 ∧ 0xE0 ≤ b.toNat ∧ b.toNat ≤ 0xEF ∨
      charWidth b = 4 ∧ 0xF0 ≤ b.toNat ∧ b.toNat ≤ 0xF4 := by
    split_ifs at hwidth <;> omega
  rcases hcases with ⟨hn, hb⟩ | ⟨hn, hb⟩ | ⟨hn, hb⟩ | ⟨hn, hb⟩
  · rw [hn] at h ⊢
    have htail : tailLength b (1 - 1) bs = 0 := by omega
    rw [htail, List.take_zero]
    exact ⟨b.toNat, .inl (by omega), .one hb rfl⟩
  · rw [hn] at h ⊢
    have htail : tailLength b (0 + 1) bs = 0 + 1 := (Nat.succ.inj h).symm
    change ∃ v, v.isValidChar ∧ Encodes v (b :: bs.take (tailLength b (0 + 1) bs))
    rw [htail]
    obtain ⟨c, cs, rest, rfl, hlength, hc, -⟩ := exists_tail htail
    obtain rfl := List.length_eq_zero_iff.mp hlength
    have hsecond := isSecond_iff.mp hc
    refine ⟨(b.toNat - 0xC0) * 64 + (c.toNat - 0x80), .inl (by omega), ?_⟩
    exact .two (by omega) (by omega) (by omega)
  · rw [hn] at h ⊢
    have htail : tailLength b (1 + 1) bs = 1 + 1 := (Nat.succ.inj h).symm
    change ∃ v, v.isValidChar ∧ Encodes v (b :: bs.take (tailLength b (1 + 1) bs))
    rw [htail]
    obtain ⟨c, cs, rest, rfl, hlength, hc, hall⟩ := exists_tail htail
    obtain ⟨d, rfl⟩ := List.length_eq_one_iff.mp hlength
    have hsecond := isSecond_iff.mp hc
    have hd := isContinuation_iff.mp (hall d List.mem_cons_self)
    -- the range of the second byte leaves the surrogates out
    have hsurrogate : (b.toNat - 0xE0) * 4096 + (c.toNat - 0x80) * 64 + (d.toNat - 0x80) < 0xD800 ∨
        0xDFFF < (b.toNat - 0xE0) * 4096 + (c.toNat - 0x80) * 64 + (d.toNat - 0x80) := by
      omega
    refine ⟨(b.toNat - 0xE0) * 4096 + (c.toNat - 0x80) * 64 + (d.toNat - 0x80), ?_, ?_⟩
    · rcases hsurrogate with hlow | hhigh
      · exact .inl hlow
      · exact .inr ⟨hhigh, by omega⟩
    · exact .three (by omega) hsurrogate (by omega) (by omega) (by omega)
  · rw [hn] at h ⊢
    have htail : tailLength b (2 + 1) bs = 2 + 1 := (Nat.succ.inj h).symm
    change ∃ v, v.isValidChar ∧ Encodes v (b :: bs.take (tailLength b (2 + 1) bs))
    rw [htail]
    obtain ⟨c, cs, rest, rfl, hlength, hc, hall⟩ := exists_tail htail
    obtain ⟨d, e, rfl⟩ := List.length_eq_two.mp hlength
    have hsecond := isSecond_iff.mp hc
    have hd := isContinuation_iff.mp (hall d List.mem_cons_self)
    have he := isContinuation_iff.mp (hall e (List.mem_cons_of_mem _ List.mem_cons_self))
    refine ⟨(b.toNat - 0xF0) * 262144 + (c.toNat - 0x80) * 4096 + (d.toNat - 0x80) * 64 +
      (e.toNat - 0x80), .inr ⟨by omega, by omega⟩, ?_⟩
    exact .four (by omega) (by omega) (by omega) (by omega) (by omega)

/-! ## 3. Texts

A text is decoded from its bytes character by character. -/

/-- The bytes of a character are skipped. -/
theorem utf8From_append (bs rest : List UInt8) :
    utf8From bs.length (bs ++ rest) = utf8From 0 rest := by
  induction bs with
  | nil => rfl
  | cons b bs ih => exact ih

/-- One character is decoded before the rest. -/
theorem utf8From_encodes {v : Nat} {bs : List UInt8} (h : Encodes v bs) (rest : List UInt8) :
    utf8From 0 (bs ++ rest) = (utf8From 0 rest).map (Char.ofNat v :: ·) := by
  cases bs with
  | nil => cases h
  | cons b bs =>
    obtain ⟨hwidth, hchar⟩ := h.firstChar_eq rest
    rw [List.cons_append, utf8From_zero, if_pos hwidth, hchar, utf8From_append]

/-- **What is encoded is decoded.** -/
theorem fromUtf8_toUtf8 (s : Str) : fromUtf8 (toUtf8 s) = some s := by
  induction s with
  | nil => rfl
  | cons c s ih =>
    have hchar := utf8From_encodes (encodes_utf8EncodeChar c) (toUtf8 s)
    rw [toUtf8, List.flatMap_cons]
    refine hchar.trans ?_
    rw [Char.ofNat_toNat]
    exact congrArg (Option.map (c :: ·)) ih

/-- **The decoder accepts exactly the bytes of texts**, and reads the text back. -/
theorem fromUtf8_eq_some_iff {bytes : List UInt8} {s : Str} :
    fromUtf8 bytes = some s ↔ bytes = toUtf8 s := by
  refine ⟨fun h => ?_, fun h => h ▸ fromUtf8_toUtf8 s⟩
  induction hlength : bytes.length using Nat.strong_induction_on generalizing bytes s with
  | _ n ih =>
    cases bytes with
    | nil =>
      cases h
      rfl
    | cons b bs =>
      have hdecode := h
      rw [fromUtf8, utf8From_zero] at hdecode
      split at hdecode
      · rename_i hwidth
        obtain ⟨v, hvalid, hv⟩ := encodes_of_width hwidth
        -- the bytes of the first character, and the others
        have hsplit : b :: bs = (b :: bs.take (tailLength b (charWidth b - 1) bs)) ++
            bs.drop (tailLength b (charWidth b - 1) bs) := by
          rw [List.cons_append, List.take_append_drop]
        rw [hsplit, fromUtf8, utf8From_encodes hv] at h
        obtain ⟨s', hs', rfl⟩ := Option.map_eq_some_iff.mp h
        have hrest := ih _ (by
          rw [← hlength, List.length_cons, List.length_drop]
          omega) hs' rfl
        have hchar : String.utf8EncodeChar (Char.ofNat v) =
            b :: bs.take (tailLength b (charWidth b - 1) bs) := by
          have henc := encodes_utf8EncodeChar (Char.ofNat v)
          have hcode : (Char.ofNat v).toNat = v := congrArg Char.toNat (dif_pos hvalid)
          rw [hcode] at henc
          exact henc.unique hv
        rw [hsplit, hrest, ← hchar]
        rfl
      · cases hdecode

end Text

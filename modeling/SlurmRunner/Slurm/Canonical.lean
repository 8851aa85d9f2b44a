/-
# Canonical texts

Which typed options read back from the text that they are printed as: resource specifications,
also those that were never text, time limits and signals.
-/
import SlurmRunner.Serde.Reader
import SlurmRunner.Slurm.ResourceSpec
import SlurmRunner.Slurm.TimeSignal

namespace Slurm

open Text

/-! ## 1. Resource specifications

`from_parts` can build a specification that asks for nothing.  It prints nothing, and it is the only
one that is not read back. -/

/-- What `from_parts` refuses. -/
inductive ResourceSpecError where
  | mixedCpuGpu
  | zeroValue (key : Str)
deriving DecidableEq, Repr

/-- A count that has to be positive if it is given. -/
def nonZeroPart (key : Str) : Option UInt32 → Except ResourceSpecError (Option NonZeroU32)
  | none => .ok none
  | some v =>
    match NonZeroU32.new v with
    | some n => .ok (some n)
    | none => .error (.zeroValue key)

namespace ResourceSpec

/-- `from_parts`. -/
def fromParts (processes threads cores : Option UInt32) (memory : Option Memory)
    (gpus : Option UInt32) : Except ResourceSpecError ResourceSpec :=
  let anyCpu := processes.isSome || threads.isSome || cores.isSome || memory.isSome
  if gpus.isSome && anyCpu then .error .mixedCpuGpu
  else match gpus with
    | some g =>
      match NonZeroU32.new g with
      | some g => .ok (.gpu ⟨g⟩)
      | none => .error (.zeroValue "gpus")
    | none => do
      let p ← nonZeroPart "processes" processes
      let t ← nonZeroPart "threads" threads
      let c ← nonZeroPart "cores" cores
      return .cpu ⟨p, t, c, memory⟩

/-- `Serialize`: the printed text. -/
def serialize (spec : ResourceSpec) : Serde.Json := .str spec.toStr

/-- `Deserialize`: a text is parsed. -/
def deserialize : Serde.Reader ResourceSpec :=
  fun doc => doc.asStr.bind fun s => (fromStr s).toOption

/-- The request that leaves everything to the scheduler. -/
def unspecified : ResourceSpec := .cpu ⟨none, none, none, none⟩

end ResourceSpec

/-- A part is left out exactly if it was not given. -/
theorem nonZeroPart_eq_none {key : Str} {v : Option UInt32} {n : Option NonZeroU32}
    (h : nonZeroPart key v = .ok n) : n = none ↔ v = none := by
  cases v with
  | none =>
    cases h
    simp
  | some v =>
    rw [nonZeroPart] at h
    split at h
    · cases h
      simp
    · cases h

namespace ResourceSpec

/-- The unspecified request is what `from_parts` makes of no argument. -/
theorem eq_unspecified_of_fromParts {processes threads cores gpus : Option UInt32}
    {memory : Option Memory} {spec : ResourceSpec}
    (h : fromParts processes threads cores memory gpus = .ok spec) :
    spec = unspecified ↔
      processes = none ∧ threads = none ∧ cores = none ∧ memory = none ∧ gpus = none := by
  unfold fromParts at h
  dsimp only at h
  split at h
  · cases h
  cases gpus with
  | some g =>
    dsimp only at h
    split at h
    · cases h
      simp [unspecified]
    · cases h
  | none =>
    simp only [bind_eq_ok, pure, Except.pure, Except.ok.injEq] at h
    obtain ⟨p, hp, t, ht, c, hc, rfl⟩ := h
    simp [unspecified, nonZeroPart_eq_none hp, nonZeroPart_eq_none ht, nonZeroPart_eq_none hc]

/-- Every other request has settings to print. -/
theorem exists_toSpec_of_ne {spec : ResourceSpec} (h : spec ≠ unspecified) :
    ∃ acc : ResourceKeys, acc.toSpec = some spec := by
  cases spec with
  | gpu g => exact ⟨⟨none, none, none, none, some g.g⟩, rfl⟩
  | cpu c =>
    refine ⟨⟨c.p, c.t, c.c, c.m, none⟩, if_pos ?_⟩
    obtain ⟨p, t, c, m⟩ := c
    by_contra hnone
    simp only [Bool.or_eq_true, not_or, Bool.not_eq_true, Option.isSome_eq_false_iff,
      Option.isNone_iff_eq_none] at hnone
    obtain ⟨⟨⟨rfl, rfl⟩, rfl⟩, rfl⟩ := hnone
    exact h rfl

theorem deserialize_serialize_iff (spec : ResourceSpec) :
    deserialize spec.serialize = some spec ↔ spec ≠ unspecified := by
  constructor
  · rintro h rfl
    cases h
  · intro h
    obtain ⟨acc, hacc⟩ := exists_toSpec_of_ne h
    exact congrArg Except.toOption (fromStr_toStr_of_toSpec hacc)

/-- **A request reads back from its serialised form** if it was parsed, or built from at least one
part; the one that is built from no part does not. -/
theorem resource_spec_reads_back (spec : ResourceSpec) :
    (∀ s, fromStr s = .ok spec → deserialize spec.serialize = some spec) ∧
      ∀ processes threads cores memory gpus,
        fromParts processes threads cores memory gpus = .ok spec →
        (deserialize spec.serialize = some spec ↔
          ¬ (processes = none ∧ threads = none ∧ cores = none ∧ memory = none ∧ gpus = none)) := by
  refine ⟨?_, ?_⟩
  · intro s hs
    obtain ⟨-, -, -, -, hback⟩ := canonical_of_fromStr hs
    exact congrArg Except.toOption hback
  · intro processes threads cores memory gpus h
    rw [deserialize_serialize_iff, ne_eq, eq_unspecified_of_fromParts h]

/-- A request for one GPU is built and reads back. -/
theorem resource_spec_reads_back_gpu :
    deserialize (serialize (.gpu ⟨⟨1, by decide⟩⟩)) = some (.gpu ⟨⟨1, by decide⟩⟩) :=
  ((resource_spec_reads_back _).2 none none none none (some 1) rfl).mpr (by simp)

/-- The request that is built from no part is printed as the empty text, which is no request. -/
theorem resource_spec_unspecified_lost :
    ∃ spec, fromParts none none none none none = .ok spec ∧
      deserialize spec.serialize ≠ some spec :=
  ⟨unspecified, rfl, by rw [ne_eq, deserialize_serialize_iff]; simp⟩

end ResourceSpec

/-! ## 2. Time limits

The six forms of a time limit and its range.  The printed form is one of the six, so a limit is read
back from what it prints. -/

/-- `s` is a numeral that `u32` can hold. -/
def U32Numeral (s : Str) (n : Nat) : Prop := Signed s n ∧ n < 2 ^ 32

namespace U32Numeral

/-- Digits that fit into 32 bits. -/
theorem of_digits {s : Str} {n : Nat} (h : Digits s n) (hn : n < 2 ^ 32) : U32Numeral s n :=
  ⟨h.signed, hn⟩

/-- It is read as a component. -/
theorem exists_component {s : Str} {n : Nat} (h : U32Numeral s n) :
    ∃ i : UInt32, i.toNat = n ∧ ∀ original, parseComponent s original = .ok i := by
  refine ⟨UInt32.ofNat n, UInt32.toNat_ofNat_of_lt' h.2, fun original => ?_⟩
  rw [parseComponent_eq_ok, UInt32.toNat_ofNat_of_lt' h.2]
  exact h.1

theorem ne_nil {s : Str} {n : Nat} (h : U32Numeral s n) : s ≠ [] := by
  rintro rfl
  obtain ⟨i, -, hi⟩ := h.exists_component
  cases hi []

theorem colon_not_mem {s : Str} {n : Nat} (h : U32Numeral s n) : ':' ∉ s :=
  h.1.not_mem rfl (by decide)

theorem dash_not_mem {s : Str} {n : Nat} (h : U32Numeral s n) : '-' ∉ s :=
  h.1.not_mem rfl (by decide)

end U32Numeral

/-- The pieces between colons. -/
theorem splitOn_colon {a : Str} (ha : ':' ∉ a) : a.splitOn ':' = [a] :=
  splitOn_eq_iff.mpr ⟨by simp, by simpa using ha, by simp⟩

/-- The first part of a text ends at its first colon. -/
theorem splitOn_colon_append {a : Str} (ha : ':' ∉ a) (rest : Str) :
    (a ++ ':' :: rest).splitOn ':' = a :: rest.splitOn ':' :=
  List.splitOn_append_cons_self_of_not_mem ha rest

namespace JobTimeLimit

/-- The total of any sentence is a value of the accumulator, and so are the sums on the way to it,
which are not larger. -/
theorem SpellsSeconds.lt {s : Str} {n : Nat} (h : SpellsSeconds U32Numeral s n) : n < 2 ^ 64 := by
  cases h with
  | minutes ha =>
    have := ha.2
    omega
  | minutesSeconds ha hb =>
    have := ha.2
    have := hb.2
    omega
  | hours ha hb hc =>
    have := ha.2
    have := hb.2
    have := hc.2
    omega
  | daysHours hd ha =>
    have := hd.2
    have := ha.2
    omega
  | daysHoursMinutes hd ha hb =>
    have := hd.2
    have := ha.2
    have := hb.2
    omega
  | daysHoursMinutesSeconds hd ha hb hc =>
    have := hd.2
    have := ha.2
    have := hb.2
    have := hc.2
    omega

theorem SpellsSeconds.ne_nil {s : Str} {n : Nat} (h : SpellsSeconds U32Numeral s n) : s ≠ [] := by
  cases h with
  | minutes ha => exact ha.ne_nil
  | _ => simp

/-- After the days. -/
theorem total_of_clock {d rest : Str} {days h m sec : UInt32} (hd : '-' ∉ d) (hne : d ≠ [])
    (hrest : rest ≠ []) (hdays : ∀ original, parseComponent d original = .ok days)
    (hclock : clock (d ++ '-' :: rest) rest = .ok (h, m, sec)) :
    total (d ++ '-' :: rest) = .ok (accumulate days h m sec) := by
  rw [total, splitOnce_append hd]
  dsimp only
  rw [if_neg (by simp [hne, hrest]), hdays, hclock]
  rfl

/-- What a text spells is the total of four parts that fit into 32 bits. -/
theorem SpellsSeconds.exists_total {s : Str} {n : Nat} (h : SpellsSeconds U32Numeral s n) :
    ∃ days h m sec, total s = .ok (accumulate days h m sec) ∧
      days.toNat * 86400 + h.toNat * 3600 + m.toNat * 60 + sec.toNat = n := by
  cases h with
  | minutes ha =>
    obtain ⟨m, rfl, hm⟩ := ha.exists_component
    refine ⟨0, 0, m, 0, ?_, by simp⟩
    rw [total, splitOnce_eq_none ha.dash_not_mem, splitOn_colon ha.colon_not_mem]
    simp only [hm]
    rfl
  | minutesSeconds ha hb =>
    obtain ⟨m, rfl, hm⟩ := ha.exists_component
    obtain ⟨sec, rfl, hsec⟩ := hb.exists_component
    refine ⟨0, 0, m, sec, ?_, by simp⟩
    rw [total, splitOnce_eq_none (by simp [ha.dash_not_mem, hb.dash_not_mem]),
      splitOn_colon_append ha.colon_not_mem, splitOn_colon hb.colon_not_mem]
    simp only [hm, hsec]
    rfl
  | hours ha hb hc =>
    obtain ⟨h, rfl, hh⟩ := ha.exists_component
    obtain ⟨m, rfl, hm⟩ := hb.exists_component
    obtain ⟨sec, rfl, hsec⟩ := hc.exists_component
    refine ⟨0, h, m, sec, ?_, by simp⟩
    rw [List.append_assoc, List.cons_append]
    rw [total, splitOnce_eq_none (by simp [ha.dash_not_mem, hb.dash_not_mem, hc.dash_not_mem]),
      splitOn_colon_append ha.colon_not_mem, splitOn_colon_append hb.colon_not_mem,
      splitOn_colon hc.colon_not_mem]
    simp only [hh, hm, hsec]
    rfl
  | daysHours hd ha =>
    obtain ⟨days, rfl, hdays⟩ := hd.exists_component
    obtain ⟨h, rfl, hh⟩ := ha.exists_component
    rename_i d a
    have hclock : clock (d ++ '-' :: a) a = .ok (h, 0, 0) := by
      rw [clock, splitOn_colon ha.colon_not_mem]
      simp only [hh]
      rfl
    refine ⟨days, h, 0, 0, ?_, by simp⟩
    exact total_of_clock hd.dash_not_mem hd.ne_nil ha.ne_nil hdays hclock
  | daysHoursMinutes hd ha hb =>
    obtain ⟨days, rfl, hdays⟩ := hd.exists_component
    obtain ⟨h, rfl, hh⟩ := ha.exists_component
    obtain ⟨m, rfl, hm⟩ := hb.exists_component
    rename_i d a b
    have hclock : clock (d ++ '-' :: (a ++ ':' :: b)) (a ++ ':' :: b) = .ok (h, m, 0) := by
      rw [clock, splitOn_colon_append ha.colon_not_mem, splitOn_colon hb.colon_not_mem]
      simp only [hh, hm]
      rfl
    refine ⟨days, h, m, 0, ?_, by simp⟩
    rw [List.append_assoc, List.cons_append]
    exact total_of_clock hd.dash_not_mem hd.ne_nil (by simp) hdays hclock
  | daysHoursMinutesSeconds hd ha hb hc =>
    obtain ⟨days, rfl, hdays⟩ := hd.exists_component
    obtain ⟨h, rfl, hh⟩ := ha.exists_component
    obtain ⟨m, rfl, hm⟩ := hb.exists_component
    obtain ⟨sec, rfl, hsec⟩ := hc.exists_component
    refine ⟨days, h, m, sec, ?_, rfl⟩
    rw [List.append_assoc, List.append_assoc, List.cons_append, List.cons_append]
    refine total_of_clock hd.dash_not_mem hd.ne_nil (by simp) hdays ?_
    rw [clock, splitOn_colon_append ha.colon_not_mem, splitOn_colon_append hb.colon_not_mem,
      splitOn_colon hc.colon_not_mem]
    simp only [hh, hm, hsec]
    rfl

/-- **The total of a sentence is computed exactly.** -/
theorem SpellsSeconds.total_eq {s : Str} {n : Nat} (h : SpellsSeconds U32Numeral s n) :
    total s = .ok (.ofNat n) := by
  obtain ⟨days, h, m, sec, htotal, hn⟩ := h.exists_total
  rw [htotal, ← hn, ← toNat_accumulate, UInt64.ofNat_toNat]

/-- A total is a limit if it is positive and fits `u32`. -/
theorem fromStr_eq_ok_iff {s : Str} {n : UInt64} (hs : s ≠ []) (htotal : total s = .ok n)
    (t : JobTimeLimit) : fromStr s = .ok t ↔ t.seconds.val.toNat = n.toNat := by
  rw [fromStr, if_neg hs, htotal]
  dsimp only
  constructor
  · intro h
    split at h
    · rename_i hlt
      split at h
      · rename_i value hvalue
        cases h
        rw [NonZeroU32.new_eq_some.mp hvalue, UInt64.toNat_toUInt32, Nat.mod_eq_of_lt hlt]
      · cases h
    · cases h
  · intro hn
    have hvalue : n.toUInt32 = t.seconds.val := by
      rw [← UInt32.toNat_inj, UInt64.toNat_toUInt32, ← hn, Nat.mod_eq_of_lt t.seconds.val.toNat_lt]
    have hnew : NonZeroU32.new n.toUInt32 = some t.seconds := NonZeroU32.new_eq_some.mpr hvalue.symm
    rw [if_pos (hn ▸ t.seconds.val.toNat_lt), hnew]

/-- Otherwise it is refused. -/
theorem fromStr_eq_error_iff {s : Str} {n : UInt64} (hs : s ≠ []) (htotal : total s = .ok n) :
    fromStr s = .error (.parseError "time_limit" s) ↔ n.toNat = 0 ∨ 2 ^ 32 ≤ n.toNat := by
  rw [fromStr, if_neg hs, htotal]
  dsimp only
  by_cases hlt : n.toNat < 2 ^ 32
  · rw [if_pos hlt]
    have hzero : n.toUInt32 = 0 ↔ n.toNat = 0 := by
      rw [← UInt32.toNat_inj, UInt64.toNat_toUInt32, Nat.mod_eq_of_lt hlt]
      rfl
    by_cases hn : n.toNat = 0
    · simp [NonZeroU32.new, hzero.mpr hn, hn]
    · simp [NonZeroU32.new, hzero, hn]
      omega
  · rw [if_neg hlt]
    simp
    omega

end JobTimeLimit

/-! ### The printed form -/

/-- Two digits read as the number that they were printed of. -/
theorem digits_twoDigits (n : Nat) : Digits (twoDigits n) n := by
  have hdecimal := digits_decimal n
  unfold twoDigits
  split
  · unfold Digits parseDigits at hdecimal ⊢
    split at hdecimal
    · rename_i hall
      rw [if_pos ⟨by simp, by simpa using hall.2⟩]
      exact hdecimal
    · cases hdecimal
  · exact hdecimal

namespace JobTimeLimit

/-- A printed limit spells its seconds. -/
theorem spells_toStr (t : JobTimeLimit) : t.Spells U32Numeral t.toStr := by
  have hlt := t.seconds.val.toNat_lt
  have hnumeral : ∀ n, n ≤ t.seconds.val.toNat → U32Numeral (twoDigits n) n := fun n hn =>
    .of_digits (digits_twoDigits n) (by omega)
  have hspells := SpellsSeconds.hours (hnumeral (t.seconds.val.toNat / 3600) (by omega))
    (hnumeral (t.seconds.val.toNat % 3600 / 60) (by omega))
    (hnumeral (t.seconds.val.toNat % 60) (by omega))
  have hsum : t.seconds.val.toNat / 3600 * 3600 + t.seconds.val.toNat % 3600 / 60 * 60 +
      t.seconds.val.toNat % 60 = t.seconds.val.toNat := by omega
  rw [hsum] at hspells
  exact hspells

/-- A printed limit reads back. -/
theorem fromStr_toStr (t : JobTimeLimit) : fromStr t.toStr = .ok t := by
  have hspells : SpellsSeconds U32Numeral t.toStr _ := t.spells_toStr
  refine (fromStr_eq_ok_iff hspells.ne_nil hspells.total_eq t).mpr ?_
  rw [UInt64.toNat_ofNat_of_lt' hspells.lt]

/-- **The arithmetic of time limits is exact**: no accumulator overflows, a text in one of the six
forms is read as its total or refused because that is zero or no `u32`, and a printed limit reads
back. -/
theorem time_limit_exact :
    (∀ days h m sec : UInt32, (accumulate days h m sec).toNat =
        days.toNat * 86400 + h.toNat * 3600 + m.toNat * 60 + sec.toNat) ∧
      (∀ s n, SpellsSeconds U32Numeral s n → n < 2 ^ 64 ∧ total s = .ok (.ofNat n) ∧
        (∀ t, fromStr s = .ok t ↔ t.seconds.val.toNat = n) ∧
        (fromStr s = .error (.parseError "time_limit" s) ↔ n = 0 ∨ 2 ^ 32 - 1 < n)) ∧
      ∀ t : JobTimeLimit, fromStr t.toStr = .ok t := by
  refine ⟨toNat_accumulate, fun s n h => ?_, fromStr_toStr⟩
  have hn : (UInt64.ofNat n).toNat = n := UInt64.toNat_ofNat_of_lt' h.lt
  refine ⟨h.lt, h.total_eq, fun t => ?_, ?_⟩
  · rw [fromStr_eq_ok_iff h.ne_nil h.total_eq, hn]
  · rw [fromStr_eq_error_iff h.ne_nil h.total_eq, hn]
    omega

end JobTimeLimit

/-! ## 3. Signals

A signal is a number or a name, which has no `:` and no `@` in it, so what is printed before and
behind it can be told from it. -/

/-- `Display` of a `SignalIdent`. -/
def SignalIdent.toStr : SignalIdent → Str
  | number n => decimal n.toNat
  | name s => s

/-- A number of a signal, or a name `[A-Z][A-Z0-9_]*`. -/
def SignalIdent.WellFormed : SignalIdent → Prop
  | number n => 1 ≤ n ∧ n ≤ 64
  | name s => ∃ c cs, s = c :: cs ∧ c.isUpper = true ∧
      ∀ x ∈ cs, x.isUpper = true ∨ x.isDigit = true ∨ x = '_'

/-- A signal, and no time or a positive one. -/
def SlurmSignalSpec.WellFormed (spec : SlurmSignalSpec) : Prop :=
  spec.signal.WellFormed ∧ ∀ sec, spec.secondsBeforeEnd = some sec → 1 ≤ sec

namespace SignalIdent

/-- What is spelled is well formed. -/
theorem Spells.wellFormed {N : Str → Nat → Prop} {s : Str} {i : SignalIdent} (h : i.Spells N s) :
    i.WellFormed := by
  cases h with
  | number _ hrange => exact hrange
  | @name c cs hc hcs =>
    refine ⟨c, cs, rfl, hc, fun x hx => ?_⟩
    simpa [or_assoc] using List.all_eq_true.mp hcs x hx

theorem not_isDigit_of_isUpper {c : Char} (h : c.isUpper = true) : c.isDigit = false := by
  by_contra hdigit
  rw [Bool.not_eq_false] at hdigit
  have hupper : 'A'.val ≤ c.val := (of_decide_eq_true h).1
  have hboth : (decide (c.val ≥ '0'.val) && decide (c.val ≤ '9'.val)) = true := hdigit
  have hnine : c.val ≤ '9'.val := of_decide_eq_true (Bool.and_eq_true_iff.mp hboth).2
  exact absurd (UInt32.le_trans hupper hnine) (by decide)

/-- The characters of a printed signal are digits, capital letters and underscores. -/
theorem WellFormed.of_mem_toStr {i : SignalIdent} (h : i.WellFormed) {x : Char}
    (hx : x ∈ i.toStr) : x.isUpper = true ∨ x.isDigit = true ∨ x = '_' := by
  cases i with
  | number n => exact .inr (.inl (isDigit_of_mem_decimal hx))
  | name s =>
    obtain ⟨c, cs, rfl, hc, hcs⟩ := h
    rcases List.mem_cons.mp hx with rfl | hmem
    · exact .inl hc
    · exact hcs x hmem

theorem WellFormed.at_not_mem {i : SignalIdent} (h : i.WellFormed) : '@' ∉ i.toStr :=
  fun hmem => absurd (h.of_mem_toStr hmem) (by decide)

theorem WellFormed.colon_not_mem {i : SignalIdent} (h : i.WellFormed) : ':' ∉ i.toStr :=
  fun hmem => absurd (h.of_mem_toStr hmem) (by decide)

theorem WellFormed.ne_nil {i : SignalIdent} (h : i.WellFormed) : i.toStr ≠ [] := by
  cases i with
  | number n => exact decimal_ne_nil _
  | name s =>
    obtain ⟨c, cs, rfl, -, -⟩ := h
    simp [toStr]

/-- **A printed signal reads back**: a number is all digits, and a name does not begin with one. -/
theorem WellFormed.parse_toStr {i : SignalIdent} (h : i.WellFormed) :
    parseSignalIdent i.toStr = .ok i := by
  unfold parseSignalIdent
  rw [if_neg h.ne_nil]
  cases i with
  | number n =>
    have hall : (decimal n.toNat).all Char.isDigit = true :=
      List.all_eq_true.mpr fun _ => isDigit_of_mem_decimal
    have hparse : parseU8 (decimal n.toNat) = some n :=
      parseU8_eq_some_iff.mpr (digits_decimal _).signed
    simp only [toStr, if_pos hall, hparse]
    exact if_pos h
  | name s =>
    obtain ⟨c, cs, rfl, hc, hcs⟩ := h
    have hdigit : c.isDigit = false := not_isDigit_of_isUpper hc
    have hall : cs.all (fun x => x.isUpper || x.isDigit || x == '_') = true := by
      refine List.all_eq_true.mpr fun x hx => ?_
      simpa [or_assoc] using hcs x hx
    simp only [toStr, List.all_cons, hdigit, Bool.false_and, Bool.false_eq_true, if_false, hc,
      Bool.true_eq_false, hall, if_true]

end SignalIdent

namespace SlurmSignalSpec

/-- A specification that is spelled is well formed. -/
theorem Spells.wellFormed {N : Str → Nat → Prop} {s : Str} {spec : SlurmSignalSpec}
    (h : spec.Spells N s) : spec.WellFormed := by
  cases h with
  | plain hi => exact ⟨hi.wellFormed, fun sec hsec => by cases hsec⟩
  | timed hi _ hpos =>
    refine ⟨hi.wellFormed, fun sec hsec => ?_⟩
    cases hsec
    rw [UInt16.le_iff_toNat_le]
    have hne : _ ≠ UInt16.toNat 0 := fun hzero => hpos (UInt16.toNat_inj.mp hzero)
    exact Nat.pos_of_ne_zero hne

/-- The time as it is printed. -/
def timeStr (sec : Option UInt16) : Str := (sec.map fun sec => '@' :: decimal sec.toNat).getD []

/-- The three parts that are printed. -/
theorem toStr_eq (spec : SlurmSignalSpec) : spec.toStr =
    resignalPrefix spec.allowResignal ++ (spec.signal.toStr ++ timeStr spec.secondsBeforeEnd) := by
  obtain ⟨r, i, sec⟩ := spec
  cases r <;> cases i <;> cases sec <;>
    simp [toStr, resignalPrefix, SignalIdent.toStr, timeStr]

/-- The first part is split off. -/
theorem splitResignal_append {r : Bool} {rest : Str} (h : ':' ∉ rest) :
    splitResignal (resignalPrefix r ++ rest) = (r, rest) := by
  cases r with
  | true =>
    have hstrip : stripStart "R:" (resignalPrefix true ++ rest) = some rest :=
      stripStart_eq_some_iff.mpr rfl
    rw [splitResignal, hstrip]
  | false =>
    have hstrip : stripStart "R:" rest = none := by
      refine if_neg fun hprefix => h ?_
      exact (List.isPrefixOf_iff_prefix.mp hprefix).subset (by decide)
    simp only [resignalPrefix, Bool.false_eq_true, if_false, List.nil_append, splitResignal, hstrip]

/-- The last part is split off. -/
theorem splitSeconds_append {t : Str} (h : '@' ∉ t) (sec : Option UInt16) :
    splitSeconds (t ++ timeStr sec) = (t, sec.map fun sec => decimal sec.toNat) := by
  cases sec with
  | none =>
    simp only [timeStr, Option.map_none, Option.getD_none, List.append_nil, splitSeconds,
      splitOnce_eq_none h]
  | some sec =>
    simp only [timeStr, Option.map_some, Option.getD_some, splitSeconds, splitOnce_append h]

/-- **A well-formed specification reads back.** -/
theorem WellFormed.fromStr_toStr {spec : SlurmSignalSpec} (h : spec.WellFormed) :
    fromStr spec.toStr = .ok spec := by
  obtain ⟨r, i, sec⟩ := spec
  obtain ⟨hi, hsec⟩ := h
  have hcolon : ':' ∉ i.toStr ++ timeStr sec := by
    have hnotime : ':' ∉ timeStr sec := by
      cases sec with
      | none => simp [timeStr]
      | some sec => simp [timeStr, not_mem_decimal]
    simp [hi.colon_not_mem, hnotime]
  rw [toStr_eq]
  dsimp only
  rw [fromStr, if_neg (by simp [hi.ne_nil]), splitResignal_append hcolon]
  dsimp only
  rw [splitSeconds_append hi.at_not_mem]
  dsimp only
  rw [if_neg hi.ne_nil, hi.parse_toStr]
  cases sec with
  | none => rfl
  | some sec =>
    have hparse : parseU16 (decimal sec.toNat) = some sec :=
      parseU16_eq_some_iff.mpr (digits_decimal _).signed
    have hne : sec ≠ 0 := by
      rintro rfl
      exact absurd (hsec 0 rfl) (by decide)
    simp only [Option.map_some, hparse, if_neg hne]

/-- The parser gives well-formed specifications only. -/
theorem wellFormed_of_fromStr {s : Str} {spec : SlurmSignalSpec} (h : fromStr s = .ok spec) :
    spec.WellFormed :=
  (spells_of_fromStr h).wellFormed

/-- **A signal reads back from its text if and only if it is well formed**, and every parsed one
is. -/
theorem signal_round_trip (spec : SlurmSignalSpec) :
    (fromStr spec.toStr = .ok spec ↔ spec.WellFormed) ∧
      ∀ s, fromStr s = .ok spec → spec.WellFormed :=
  ⟨⟨wellFormed_of_fromStr, WellFormed.fromStr_toStr⟩, fun _ => wellFormed_of_fromStr⟩

end SlurmSignalSpec

end Slurm

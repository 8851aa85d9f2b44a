/-
# Time limits and signals as text

The parsers of `--time` and of `--signal`, and the texts that they accept.
-/
import SlurmRunner.Slurm.ArraySpec
import SlurmRunner.Slurm.Options

namespace Slurm

open Text

/-! ## 1. Time limits

The six forms of `sbatch(1)`: minutes, minutes and seconds, hours with both, and the three forms
after a number of days. `from_str` splits at `-` and at `:`, reads each component as a `u32`, and
adds them up in `u64`. -/

/-- `parse_component`. -/
def parseComponent (raw original : Str) : Except SchemaParseError UInt32 :=
  match parseU32 raw with
  | some n => .ok n
  | none => .error (.parseError "time_limit" original)

namespace JobTimeLimit

/-- The hours, minutes and seconds in `rest`, which follows the days of `s`. -/
def clock (s rest : Str) : Except SchemaParseError (UInt32 × UInt32 × UInt32) :=
  match rest.splitOn ':' with
  | [h] => do
    let h ← parseComponent h s
    return (h, 0, 0)
  | [h, m] => do
    let h ← parseComponent h s
    let m ← parseComponent m s
    return (h, m, 0)
  | [h, m, sec] => do
    let h ← parseComponent h s
    let m ← parseComponent m s
    let sec ← parseComponent sec s
    return (h, m, sec)
  | _ => .error (.parseError "time_limit" s)

/-- The sum of the components as it is computed, in `u64`. -/
def accumulate (days h m sec : UInt32) : UInt64 :=
  days.toUInt64 * 86400 + h.toUInt64 * 3600 + m.toUInt64 * 60 + sec.toUInt64

/-- The accumulator does not wrap, whatever the components are. -/
theorem toNat_accumulate (days h m sec : UInt32) : (accumulate days h m sec).toNat =
    days.toNat * 86400 + h.toNat * 3600 + m.toNat * 60 + sec.toNat := by
  have hdays := days.toNat_lt
  have hh := h.toNat_lt
  have hm := m.toNat_lt
  have hsec := sec.toNat_lt
  have hday : (86400 : UInt64).toNat = 86400 := rfl
  have hhour : (3600 : UInt64).toNat = 3600 := rfl
  have hminute : (60 : UInt64).toNat = 60 := rfl
  simp only [accumulate, UInt64.toNat_add, UInt64.toNat_mul, UInt32.toNat_toUInt64, hday, hhour,
    hminute]
  omega

/-- The number of seconds.  A component that the form does not have counts as zero. -/
def total (s : Str) : Except SchemaParseError UInt64 :=
  match splitOnce '-' s with
  | some (daysS, rest) =>
    if daysS = [] ∨ rest = [] then .error (.parseError "time_limit" s)
    else do
      let days ← parseComponent daysS s
      let (h, m, sec) ← clock s rest
      return accumulate days h m sec
  | none =>
    match s.splitOn ':' with
    | [m] => do
      let m ← parseComponent m s
      return accumulate 0 0 m 0
    | [m, sec] => do
      let m ← parseComponent m s
      let sec ← parseComponent sec s
      return accumulate 0 0 m sec
    | [h, m, sec] => do
      let h ← parseComponent h s
      let m ← parseComponent m s
      let sec ← parseComponent sec s
      return accumulate 0 h m sec
    | _ => .error (.parseError "time_limit" s)

/-- `from_str`. -/
def fromStr (s : Str) : Except SchemaParseError JobTimeLimit :=
  if s = [] then .error (.parseError "time_limit" s)
  else match total s with
    | .error e => .error e
    | .ok total =>
      -- `u32::try_from` fails where the value does not fit
      if total.toNat < 2 ^ 32 then
        match NonZeroU32.new total.toUInt32 with
        | some value => .ok ⟨value⟩
        | none => .error (.parseError "time_limit" s)
      else .error (.parseError "time_limit" s)

/-- `s` spells a number of seconds in one of the six forms, with numerals of `N`. -/
inductive SpellsSeconds (N : Str → Nat → Prop) : Str → Nat → Prop
  | minutes {a : Str} {m : Nat} (ha : N a m) : SpellsSeconds N a (m * 60)
  | minutesSeconds {a b : Str} {m sec : Nat} (ha : N a m) (hb : N b sec) :
      SpellsSeconds N (a ++ ':' :: b) (m * 60 + sec)
  | hours {a b c : Str} {h m sec : Nat} (ha : N a h) (hb : N b m) (hc : N c sec) :
      SpellsSeconds N (a ++ ':' :: b ++ ':' :: c) (h * 3600 + m * 60 + sec)
  | daysHours {d a : Str} {days h : Nat} (hd : N d days) (ha : N a h) :
      SpellsSeconds N (d ++ '-' :: a) (days * 86400 + h * 3600)
  | daysHoursMinutes {d a b : Str} {days h m : Nat} (hd : N d days) (ha : N a h) (hb : N b m) :
      SpellsSeconds N (d ++ '-' :: a ++ ':' :: b) (days * 86400 + h * 3600 + m * 60)
  | daysHoursMinutesSeconds {d a b c : Str} {days h m sec : Nat} (hd : N d days) (ha : N a h)
      (hb : N b m) (hc : N c sec) :
      SpellsSeconds N (d ++ '-' :: a ++ ':' :: b ++ ':' :: c)
        (days * 86400 + h * 3600 + m * 60 + sec)

/-- `s` spells the time limit. -/
def Spells (N : Str → Nat → Prop) (s : Str) (t : JobTimeLimit) : Prop :=
  SpellsSeconds N s t.seconds.val.toNat

end JobTimeLimit

/-- A component is what `u32::from_str` reads, a sign `+` included. -/
theorem parseComponent_eq_ok {raw original : Str} {n : UInt32} :
    parseComponent raw original = .ok n ↔ Signed raw n.toNat := by
  rw [← parseU32_eq_some_iff, parseComponent]
  split
  · rename_i m hm
    simp [hm]
  · rename_i hm
    simp [hm]

namespace JobTimeLimit

/-- After a number of days come hours, and then minutes and seconds if they are there. -/
theorem spellsSeconds_of_clock {s d rest : Str} {days h m sec : UInt32}
    (hd : Signed d days.toNat) (hclock : clock s rest = .ok (h, m, sec)) :
    SpellsSeconds Signed (d ++ '-' :: rest)
      (days.toNat * 86400 + h.toNat * 3600 + m.toNat * 60 + sec.toNat) := by
  unfold clock at hclock
  split at hclock
  all_goals
    simp only [bind_eq_ok, parseComponent_eq_ok, pure, Except.pure, Except.ok.injEq,
      Prod.mk.injEq, reduceCtorEq] at hclock
  · rename_i a hpieces
    obtain ⟨-, -, rfl⟩ := splitOn_eq_iff.mp hpieces
    obtain ⟨h, ha, rfl, rfl, rfl⟩ := hclock
    simpa using SpellsSeconds.daysHours hd ha
  · rename_i a b hpieces
    obtain ⟨-, -, rfl⟩ := splitOn_eq_iff.mp hpieces
    obtain ⟨h, ha, m, hb, rfl, rfl, rfl⟩ := hclock
    simpa using SpellsSeconds.daysHoursMinutes hd ha hb
  · rename_i a b c hpieces
    obtain ⟨-, -, rfl⟩ := splitOn_eq_iff.mp hpieces
    obtain ⟨h, ha, m, hb, sec, hc, rfl, rfl, rfl⟩ := hclock
    simpa using SpellsSeconds.daysHoursMinutesSeconds hd ha hb hc

/-- What is computed was spelt. -/
theorem spellsSeconds_of_total {s : Str} {n : UInt64} (h : total s = .ok n) :
    SpellsSeconds Signed s n.toNat := by
  unfold total at h
  split at h
  · rename_i daysS rest hsplit
    obtain ⟨rfl, -⟩ := splitOnce_eq_some_iff.mp hsplit
    split at h
    · cases h
    obtain ⟨days, hdays, h⟩ := bind_eq_ok.mp h
    obtain ⟨⟨hours, m, sec⟩, hclock, h⟩ := bind_eq_ok.mp h
    cases h
    rw [toNat_accumulate]
    exact spellsSeconds_of_clock (parseComponent_eq_ok.mp hdays) hclock
  · split at h
    all_goals
      simp only [bind_eq_ok, parseComponent_eq_ok, pure, Except.pure, Except.ok.injEq,
        reduceCtorEq] at h
    · rename_i a hpieces
      obtain ⟨-, -, hs⟩ := splitOn_eq_iff.mp hpieces
      obtain ⟨m, ha, rfl⟩ := h
      rw [hs, toNat_accumulate]
      simpa using SpellsSeconds.minutes ha
    · rename_i a b hpieces
      obtain ⟨-, -, hs⟩ := splitOn_eq_iff.mp hpieces
      obtain ⟨m, ha, sec, hb, rfl⟩ := h
      rw [hs, toNat_accumulate]
      simpa using SpellsSeconds.minutesSeconds ha hb
    · rename_i a b c hpieces
      obtain ⟨-, -, hs⟩ := splitOn_eq_iff.mp hpieces
      obtain ⟨hours, ha, m, hb, sec, hc, rfl⟩ := h
      rw [hs, toNat_accumulate]
      simpa using SpellsSeconds.hours ha hb hc

/-- **What is accepted is a sentence**, where a numeral may have a sign. -/
theorem spells_of_fromStr {s : Str} {t : JobTimeLimit} (h : fromStr s = .ok t) :
    t.Spells Signed s := by
  unfold fromStr at h
  split at h
  · cases h
  split at h
  · cases h
  rename_i n htotal
  split at h
  · rename_i hlt
    split at h
    · rename_i value hvalue
      cases h
      have hn : n.toNat = value.val.toNat := by
        rw [NonZeroU32.new_eq_some.mp hvalue, UInt64.toNat_toUInt32, Nat.mod_eq_of_lt hlt]
      rw [Spells, ← hn]
      exact spellsSeconds_of_total htotal
    · cases h
  · cases h

/-- Without a plus sign all numerals are digits. -/
theorem SpellsSeconds.digits {s : Str} {n : Nat} (h : SpellsSeconds Signed s n) (hplus : '+' ∉ s) :
    SpellsSeconds Digits s n := by
  cases h with
  | minutes ha => exact .minutes (ha.digits hplus)
  | minutesSeconds ha hb =>
    simp only [List.mem_append, List.mem_cons, not_or] at hplus
    obtain ⟨pa, -, pb⟩ := hplus
    exact .minutesSeconds (ha.digits pa) (hb.digits pb)
  | hours ha hb hc =>
    simp only [List.mem_append, List.mem_cons, not_or] at hplus
    obtain ⟨⟨pa, -, pb⟩, -, pc⟩ := hplus
    exact .hours (ha.digits pa) (hb.digits pb) (hc.digits pc)
  | daysHours hd ha =>
    simp only [List.mem_append, List.mem_cons, not_or] at hplus
    obtain ⟨pd, -, pa⟩ := hplus
    exact .daysHours (hd.digits pd) (ha.digits pa)
  | daysHoursMinutes hd ha hb =>
    simp only [List.mem_append, List.mem_cons, not_or] at hplus
    obtain ⟨⟨pd, -, pa⟩, -, pb⟩ := hplus
    exact .daysHoursMinutes (hd.digits pd) (ha.digits pa) (hb.digits pb)
  | daysHoursMinutesSeconds hd ha hb hc =>
    simp only [List.mem_append, List.mem_cons, not_or] at hplus
    obtain ⟨⟨⟨pd, -, pa⟩, -, pb⟩, -, pc⟩ := hplus
    exact .daysHoursMinutesSeconds (hd.digits pd) (ha.digits pa) (hb.digits pb) (hc.digits pc)

/-- A sentence whose numerals are digits has no plus sign. -/
theorem SpellsSeconds.plus_not_mem {s : Str} {n : Nat} (h : SpellsSeconds Digits s n) :
    '+' ∉ s := by
  cases h with
  | minutes ha => exact ha.plus_not_mem
  | minutesSeconds ha hb => simp [ha.plus_not_mem, hb.plus_not_mem]
  | hours ha hb hc => simp [ha.plus_not_mem, hb.plus_not_mem, hc.plus_not_mem]
  | daysHours hd ha => simp [hd.plus_not_mem, ha.plus_not_mem]
  | daysHoursMinutes hd ha hb => simp [hd.plus_not_mem, ha.plus_not_mem, hb.plus_not_mem]
  | daysHoursMinutesSeconds hd ha hb hc =>
    simp [hd.plus_not_mem, ha.plus_not_mem, hb.plus_not_mem, hc.plus_not_mem]

end JobTimeLimit

/-! ## 2. Signals

`[R:]SIG[@SEC]`: a signal is a number or a name of capitals, digits and underscores, and the delay
is a `u16`. The parser takes the parts off one after the other, first the `R:` and then what is
after the `@`. -/

/-- `parse_signal_ident`. -/
def parseSignalIdent (s : Str) : Except SchemaParseError SignalIdent :=
  let err : Except SchemaParseError SignalIdent := .error (.parseError "signal/identifier" s)
  if s = [] then err
  else if s.all Char.isDigit then
    match parseU8 s with
    | some n => if 1 ≤ n ∧ n ≤ 64 then .ok (.number n) else err
    | none => err
  else match s with
    | [] => err
    | first :: chars =>
      if first.isUpper = false then err
      else if chars.all fun c => c.isUpper || c.isDigit || c == '_' then .ok (.name s)
      else err

namespace SlurmSignalSpec

/-- The optional `R:` in front. -/
def splitResignal (s : Str) : Bool × Str :=
  match stripStart "R:" s with
  | some stripped => (true, stripped)
  | none => (false, s)

/-- The optional time after the at sign. -/
def splitSeconds (rest : Str) : Str × Option Str :=
  match splitOnce '@' rest with
  | some (l, r) => (l, some r)
  | none => (rest, none)

/-- `from_str`. -/
def fromStr (s : Str) : Except SchemaParseError SlurmSignalSpec :=
  let err : Except SchemaParseError SlurmSignalSpec := .error (.parseError "signal" s)
  if s = [] then err
  else
    let (allowResignal, rest) := splitResignal s
    let (sigPart, secPart) := splitSeconds rest
    if sigPart = [] then err
    else match parseSignalIdent sigPart with
      | .error e => .error e
      | .ok signal =>
        match secPart with
        | some r =>
          match parseU16 r with
          | some n => if n = 0 then err else .ok ⟨allowResignal, signal, some n⟩
          | none => err
        | none => .ok ⟨allowResignal, signal, none⟩

end SlurmSignalSpec

/-- `s` spells the signal. -/
inductive SignalIdent.Spells (N : Str → Nat → Prop) : Str → SignalIdent → Prop
  | number {s : Str} {n : UInt8} (hn : N s n.toNat) (hrange : 1 ≤ n ∧ n ≤ 64) :
      Spells N s (.number n)
  | name {c : Char} {cs : Str} (hc : c.isUpper = true)
      (hcs : cs.all fun x => x.isUpper || x.isDigit || x == '_') :
      Spells N (c :: cs) (.name (c :: cs))

/-- The prefix of a signal that may be sent again. -/
def resignalPrefix (allowResignal : Bool) : Str := if allowResignal then "R:" else []

/-- `s` spells the specification. -/
inductive SlurmSignalSpec.Spells (N : Str → Nat → Prop) : Str → SlurmSignalSpec → Prop
  | plain {r : Bool} {t : Str} {i : SignalIdent} (hi : i.Spells N t) :
      Spells N (resignalPrefix r ++ t) ⟨r, i, none⟩
  | timed {r : Bool} {t d : Str} {i : SignalIdent} {sec : UInt16} (hi : i.Spells N t)
      (hsec : N d sec.toNat) (hpos : sec ≠ 0) :
      Spells N (resignalPrefix r ++ t ++ '@' :: d) ⟨r, i, some sec⟩

/-- What the parser takes for a signal is one of the grammar, where a numeral may have a sign. -/
theorem spells_of_parseSignalIdent {s : Str} {i : SignalIdent} (h : parseSignalIdent s = .ok i) :
    i.Spells Signed s := by
  unfold parseSignalIdent at h
  dsimp only at h
  split at h
  · cases h
  split at h
  · split at h
    · rename_i n hn
      split at h
      · rename_i hrange
        cases h
        exact .number (parseU8_eq_some_iff.mp hn) hrange
      · cases h
    · cases h
  · split at h
    · cases h
    split at h
    · cases h
    rename_i hfirst
    split at h
    · rename_i hall
      cases h
      exact .name (by simpa using hfirst) hall
    · cases h

/-- Without a `+` the sentence has its numeral in digits. -/
theorem SignalIdent.Spells.digits {s : Str} {i : SignalIdent} (h : i.Spells Signed s)
    (hplus : '+' ∉ s) : i.Spells Digits s := by
  cases h with
  | number hn hrange => exact .number (hn.digits hplus) hrange
  | name hc hcs => exact .name hc hcs

/-- The documented sentences have no sign. -/
theorem SignalIdent.Spells.plus_not_mem {s : Str} {i : SignalIdent} (h : i.Spells Digits s) :
    '+' ∉ s := by
  cases h with
  | number hn _ => exact hn.plus_not_mem
  | name hc hcs =>
    rw [List.mem_cons, not_or]
    constructor
    · rintro rfl
      exact absurd hc (by decide)
    · intro hmem
      exact absurd (List.all_eq_true.mp hcs '+' hmem) (by decide)

namespace SlurmSignalSpec

/-- The prefix and the rest are the text. -/
theorem eq_of_splitResignal {s rest : Str} {r : Bool} (h : splitResignal s = (r, rest)) :
    s = resignalPrefix r ++ rest := by
  unfold splitResignal at h
  split at h
  · rename_i stripped hstrip
    cases h
    exact stripStart_eq_some_iff.mp hstrip
  · cases h
    rfl

/-- The text before the `@` and the one after it are the text. -/
theorem eq_of_splitSeconds {rest t : Str} {sec : Option Str} (h : splitSeconds rest = (t, sec)) :
    rest = t ++ (sec.map ('@' :: ·)).getD [] := by
  unfold splitSeconds at h
  split at h
  · rename_i l r hsplit
    cases h
    exact (splitOnce_eq_some_iff.mp hsplit).1
  · cases h
    simp

/-- **What is accepted is a sentence**, where the time may have a sign. -/
theorem spells_of_fromStr {s : Str} {spec : SlurmSignalSpec} (h : fromStr s = .ok spec) :
    spec.Spells Signed s := by
  unfold fromStr at h
  dsimp only at h
  rcases hresignal : splitResignal s with ⟨r, rest⟩
  rcases hseconds : splitSeconds rest with ⟨t, sec⟩
  have hs := eq_of_splitResignal hresignal
  rw [eq_of_splitSeconds hseconds] at hs
  simp only [hresignal, hseconds] at h
  split at h
  · cases h
  split at h
  · cases h
  split at h
  · cases h
  rename_i signal hsignal
  have hi := spells_of_parseSignalIdent hsignal
  split at h
  · rename_i d
    split at h
    · rename_i n hn
      split at h
      · cases h
      · rename_i hpos
        cases h
        rw [hs]
        exact List.append_assoc _ _ _ ▸ Spells.timed hi (parseU16_eq_some_iff.mp hn) hpos
    · cases h
  · cases h
    rw [hs]
    simpa using Spells.plain hi

theorem plus_not_mem_resignalPrefix (r : Bool) : '+' ∉ resignalPrefix r := by
  cases r <;> decide

/-- A specification without a `+` is one of the documented grammar: the sign of a signal and that of
a delay are the only places where the parser takes more. -/
theorem Spells.digits {s : Str} {spec : SlurmSignalSpec} (h : spec.Spells Signed s)
    (hplus : '+' ∉ s) : spec.Spells Digits s := by
  cases h with
  | plain hi =>
    simp only [List.mem_append, not_or] at hplus
    exact .plain (hi.digits hplus.2)
  | timed hi hsec hpos =>
    simp only [List.mem_append, List.mem_cons, not_or] at hplus
    exact .timed (hi.digits hplus.1.2) (hsec.digits hplus.2.2) hpos

/-- And the documented grammar has no `+` anywhere. -/
theorem Spells.plus_not_mem {s : Str} {spec : SlurmSignalSpec} (h : spec.Spells Digits s) :
    '+' ∉ s := by
  cases h with
  | plain hi => simp [plus_not_mem_resignalPrefix, hi.plus_not_mem]
  | timed hi hsec _ =>
    simp [plus_not_mem_resignalPrefix, hi.plus_not_mem, hsec.plus_not_mem]

end SlurmSignalSpec

end Slurm

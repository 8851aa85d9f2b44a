/-
# The grammars of the options

For each option that is parsed, the texts that spell its values, with the numerals as a parameter.
What the parsers accept is spelt with the numerals that `str::parse` reads, which may have a plus
sign.  The documented grammars have strings of digits.  The two agree on a text exactly where it has
no plus sign; in a dependency, where a plus sign also separates the delay, where no two of them meet
(`grammar_digits_iff`).
-/
import SlurmRunner.Slurm.Dependency
import SlurmRunner.Slurm.ResourceSpec
import SlurmRunner.Slurm.TimeSignal

namespace Slurm

open Text

/-! ## 1. Array specifications

A grammar that is given by `Signed` numerals allows a plus sign before a number.  A text without
plus signs spells the same by both. -/

/-- Without plus signs, the entry is spelled by digits. -/
theorem ArrayIndex.Spells.digits {s : Str} {e : ArrayIndex} (h : e.Spells Signed s)
    (hplus : '+' ∉ s) : e.Spells Digits s := by
  cases h with
  | single ha => exact .single (ha.digits hplus)
  | range ha hb =>
    simp only [List.mem_append, List.mem_cons, not_or] at hplus
    obtain ⟨pa, -, pb⟩ := hplus
    exact .range (ha.digits pa) (hb.digits pb)
  | stepped ha hb hc =>
    simp only [List.mem_append, List.mem_cons, not_or] at hplus
    obtain ⟨⟨pa, -, pb⟩, -, pc⟩ := hplus
    exact .stepped (ha.digits pa) (hb.digits pb) (hc.digits pc)

/-- A documented entry has no plus sign. -/
theorem ArrayIndex.Spells.plus_not_mem {s : Str} {e : ArrayIndex} (h : e.Spells Digits s) :
    '+' ∉ s := by
  cases h with
  | single ha => exact ha.plus_not_mem
  | range ha hb => simp [ha.plus_not_mem, hb.plus_not_mem]
  | stepped ha hb hc => simp [ha.plus_not_mem, hb.plus_not_mem, hc.plus_not_mem]

/-- The elements of a list without plus signs have none. -/
theorem forall₂_digits {α : Type} {R S : Str → α → Prop} {c : Char} {texts : List Str} {xs : List α}
    (h : List.Forall₂ R texts xs) (hplus : '+' ∉ List.intercalate [c] texts)
    (himp : ∀ text x, '+' ∉ text → R text x → S text x) : List.Forall₂ S texts xs := by
  refine forall₂_imp_of_mem h ?_
  intro text htext x _
  exact himp text x fun hmem => hplus ((infix_intercalate htext).subset hmem)

/-- A list of elements without plus signs has none. -/
theorem plus_not_mem_intercalate {α : Type} {R : Str → α → Prop} {c : Char} {texts : List Str}
    {xs : List α} (hc : '+' ≠ c) (h : List.Forall₂ R texts xs)
    (hfree : ∀ text x, R text x → '+' ∉ text) : '+' ∉ List.intercalate [c] texts := by
  refine not_mem_intercalate hc ?_
  intro text htext
  obtain ⟨x, -, hx⟩ := exists_of_mem_left h htext
  exact hfree text x hx

/-- The same for a whole specification. -/
theorem SlurmArraySpec.Spells.digits {s : Str} {spec : SlurmArraySpec} (h : spec.Spells Signed s)
    (hplus : '+' ∉ s) : spec.Spells Digits s := by
  cases h with
  | plain h => exact .plain (forall₂_digits h hplus fun _ _ hfree he => he.digits hfree)
  | capped h hcap =>
    simp only [List.mem_append, List.mem_cons, not_or] at hplus
    obtain ⟨pentries, -, pcap⟩ := hplus
    exact .capped (forall₂_digits h pentries fun _ _ hfree he => he.digits hfree)
      (hcap.digits pcap)

/-- A documented specification has no plus sign. -/
theorem SlurmArraySpec.Spells.plus_not_mem {s : Str} {spec : SlurmArraySpec}
    (h : spec.Spells Digits s) : '+' ∉ s := by
  have hentries : ∀ {entries : List Str} {indices : List ArrayIndex},
      List.Forall₂ (ArrayIndex.Spells Digits) entries indices →
      '+' ∉ List.intercalate [','] entries :=
    fun h => plus_not_mem_intercalate (by decide) h fun _ _ he => he.plus_not_mem
  cases h with
  | plain h => exact hentries h
  | capped h hcap =>
    simp [hentries h, hcap.plus_not_mem]

/-! ## 2. Dependencies

A dependency has plus signs of its own, before the delay of a job, so a signed delay shows as two
plus signs in a row. -/

theorem DependencyJobRef.Spells.plus_plus {s : Str} {r : DependencyJobRef}
    (h : r.Spells Digits s) : ¬ ("++" : Str) <:+: s := by
  intro hinfix
  have hcount := hinfix.sublist.count_le '+'
  cases h with
  | plain hid => simp [List.count_eq_zero_of_not_mem hid.plus_not_mem] at hcount
  | delayed hid hdelay =>
    simp [List.count_eq_zero_of_not_mem hid.plus_not_mem,
      List.count_eq_zero_of_not_mem hdelay.plus_not_mem] at hcount

/-- A documented clause has no two plus signs in a row. -/
theorem DependencyClause.Spells.plus_plus {s : Str} {c : DependencyClause}
    (h : c.Spells Digits s) : ¬ ("++" : Str) <:+: s := by
  obtain ⟨texts, rfl, hrefs⟩ := h
  intro hinfix
  obtain ⟨text, htext, hinfix⟩ := infix_of_infix_intercalate (by decide) (by decide) hinfix
  rcases List.mem_cons.mp htext with rfl | htext
  · have hplus : '+' ∈ c.depType.asKeyword := hinfix.subset (by decide)
    revert hplus
    cases c.depType <;> decide +kernel
  · obtain ⟨r, -, hr⟩ := exists_of_mem_left hrefs htext
    exact hr.plus_plus hinfix

/-- And neither has a documented dependency. -/
theorem SlurmDependency.Spells.plus_plus {s : Str} {d : SlurmDependency}
    (h : d.Spells Digits s) : ¬ ("++" : Str) <:+: s := by
  obtain ⟨texts, rfl, hclauses⟩ := h
  have hsep : d.join.asChar ∉ ("++" : Str) := by
    cases d.join <;> decide
  intro hinfix
  obtain ⟨text, htext, hinfix⟩ := infix_of_infix_intercalate hsep (by decide) hinfix
  obtain ⟨c, -, hc⟩ := exists_of_mem_left hclauses htext
  exact hc.plus_plus hinfix

/-- Where no two plus signs meet, the delays are digits. -/
theorem SlurmDependency.Spells.digits {s : Str} {d : SlurmDependency} (h : d.Spells Signed s)
    (hplus : ¬ ("++" : Str) <:+: s) : d.Spells Digits s := by
  refine h.imp ?_
  intro delay n hinfix hdelay
  rcases hdelay with hdigits | ⟨ds, rfl, -⟩
  · exact hdigits
  · have hleft : ("++" : Str) <:+: '+' :: '+' :: ds := List.IsPrefix.isInfix ⟨ds, rfl⟩
    exact absurd (hleft.trans hinfix) hplus

/-! ## 3. Resources

The numbers of a resource specification have no sign either. -/

/-- `s` spells the amount of memory. -/
inductive Memory.Spells (N : Str → Nat → Prop) : Str → Memory → Prop
  | plain {s : Str} {n : NonZeroU32} (hn : N s n.val.toNat) : Spells N s ⟨n, .mega⟩
  | suffixed {s : Str} {n : NonZeroU32} {u : MemoryUnit} (hn : N s n.val.toNat) :
      Spells N (s ++ [u.asChar]) ⟨n, u⟩

/-- `v` spells the value of the setting. -/
def ResourceSetting.SpellsValue (N : Str → Nat → Prop) (v : Str) : ResourceSetting → Prop
  | p n | t n | c n | g n => N v n.val.toNat
  | m memory => memory.Spells N v

/-- `token` spells the setting. -/
def ResourceSetting.Spells (N : Str → Nat → Prop) (token : Str) (x : ResourceSetting) : Prop :=
  ∃ v, token = x.key.letter :: '=' :: v ∧ x.SpellsValue N v

/-- `s` spells the specification: its settings in any order, and one at least. -/
def ResourceSpec.Spells (N : Str → Nat → Prop) (s : Str) (spec : ResourceSpec) : Prop :=
  spec.settings ≠ [] ∧ ∃ tokens xs, s = List.intercalate [':'] tokens ∧
    List.Forall₂ (ResourceSetting.Spells N) tokens xs ∧ spec.settings.Perm xs

/-- The number and the unit are the parts of the text. -/
theorem Memory.eq_of_splitUnit {s digits : Str} {unit : MemoryUnit}
    (h : splitUnit s = some (digits, unit)) :
    (s = digits ∧ unit = .mega) ∨ s = digits ++ [unit.asChar] := by
  obtain ⟨last, hlast, h⟩ := Option.bind_eq_some_iff.mp h
  split at h
  · cases h
    exact .inl ⟨rfl, rfl⟩
  · obtain ⟨u, hu, h⟩ := Option.map_eq_some_iff.mp h
    cases h
    have hchar : last = unit.asChar := by
      unfold MemoryUnit.fromChar at hu
      split at hu <;> cases hu <;> rfl
    rw [← hchar]
    exact .inr (List.dropLast_append_getLast? last hlast).symm

/-- **What is accepted is a sentence**, where the numeral may have a sign. -/
theorem Memory.spells_of_fromStr {s : Str} {memory : Memory} (h : fromStr s = .ok memory) :
    memory.Spells Signed s := by
  unfold fromStr at h
  dsimp only at h
  split at h
  · cases h
  split at h
  · cases h
  rename_i digits unit hsplit
  split at h
  · cases h
  split at h
  · cases h
  rename_i raw hraw
  split at h
  · rename_i value hvalue
    cases h
    have hn : Signed digits value.val.toNat := by
      rw [NonZeroU32.new_eq_some.mp hvalue]
      exact parseU32_eq_some_iff.mp hraw
    rcases eq_of_splitUnit hsplit with ⟨rfl, rfl⟩ | rfl
    · exact .plain hn
    · exact .suffixed hn
  · cases h

theorem Memory.Spells.digits {s : Str} {memory : Memory} (h : memory.Spells Signed s)
    (hplus : '+' ∉ s) : memory.Spells Digits s := by
  cases h with
  | plain hn => exact .plain (hn.digits hplus)
  | suffixed hn =>
    rw [List.mem_append, not_or] at hplus
    exact .suffixed (hn.digits hplus.1)

theorem Memory.Spells.plus_not_mem {s : Str} {memory : Memory} (h : memory.Spells Digits s) :
    '+' ∉ s := by
  cases h with
  | plain hn => exact hn.plus_not_mem
  | @suffixed s n u hn =>
    have hunit : '+' ≠ u.asChar := by
      cases u <;> decide
    simp [hn.plus_not_mem, hunit]

/-- What a setting reads as, it spells with signed numerals. -/
theorem ResourceSetting.spells_of_reads {token : Str} {x : ResourceSetting} (h : x.Reads token) :
    x.Spells Signed token := by
  obtain ⟨v, rfl, hv⟩ := h
  refine ⟨v, rfl, ?_⟩
  cases x with
  | m memory => exact Memory.spells_of_fromStr hv
  | _ n => exact parseU32_eq_some_iff.mp hv

theorem ResourceSetting.Spells.digits {token : Str} {x : ResourceSetting}
    (h : x.Spells Signed token) (hplus : '+' ∉ token) : x.Spells Digits token := by
  obtain ⟨v, rfl, hv⟩ := h
  simp only [List.mem_cons, not_or] at hplus
  refine ⟨v, rfl, ?_⟩
  cases x with
  | m memory => exact Memory.Spells.digits hv hplus.2.2
  | _ n => exact Signed.digits hv hplus.2.2

theorem ResourceSetting.Spells.plus_not_mem {token : Str} {x : ResourceSetting}
    (h : x.Spells Digits token) : '+' ∉ token := by
  obtain ⟨v, rfl, hv⟩ := h
  have hletter : '+' ≠ x.key.letter := by
    cases x <;> simp [key, ResourceKey.letter]
  have hvalue : '+' ∉ v := by
    cases x with
    | m memory => exact Memory.Spells.plus_not_mem hv
    | _ n => exact Digits.plus_not_mem hv
  simp [hletter, hvalue]

/-- **What is accepted is a sentence**, where a numeral may have a sign. -/
theorem ResourceSpec.spells_of_fromStr {s : Str} {spec : ResourceSpec} (h : fromStr s = .ok spec) :
    spec.Spells Signed s := by
  obtain ⟨xs, hxs, hperm, -, -⟩ := canonical_of_fromStr h
  have hspells : List.Forall₂ (ResourceSetting.Spells Signed) (s.splitOn ':') xs :=
    hxs.imp fun _ _ hx => ResourceSetting.spells_of_reads hx
  refine ⟨?_, _, xs, (List.intercalate_splitOn ':').symm, hspells, hperm⟩
  intro hnil
  rw [hnil] at hperm
  rw [← hperm.nil_eq] at hxs
  exact List.splitOn_ne_nil ':' s (List.forall₂_nil_right_iff.mp hxs)

/-- Without plus signs, the specification is spelled by digits. -/
theorem ResourceSpec.Spells.digits {s : Str} {spec : ResourceSpec} (h : spec.Spells Signed s)
    (hplus : '+' ∉ s) : spec.Spells Digits s := by
  obtain ⟨hne, tokens, xs, rfl, hxs, hperm⟩ := h
  exact ⟨hne, tokens, xs, rfl, forall₂_digits hxs hplus fun _ _ hfree hx => hx.digits hfree, hperm⟩

/-- A documented specification has no plus sign. -/
theorem ResourceSpec.Spells.plus_not_mem {s : Str} {spec : ResourceSpec}
    (h : spec.Spells Digits s) : '+' ∉ s := by
  obtain ⟨-, tokens, xs, rfl, hxs, -⟩ := h
  exact plus_not_mem_intercalate (by decide) hxs fun _ _ hx => hx.plus_not_mem

/-! ## 4. The accepted texts and the documented grammars

What the parsers accept beyond the documented grammars are the signs, so a text is accepted by both
or it has a plus sign where the grammar has none. -/

/-- **An accepted text is a sentence of the documented grammar**, with strings of digits for its
numerals, if and only if it has no plus sign, or no two that meet in a dependency. -/
theorem grammar_digits_iff (s : Str) :
    (∀ spec, SlurmArraySpec.fromStr s = .ok spec →
        ((∃ v : SlurmArraySpec, v.WellFormed ∧ v.Spells Digits s) ↔ '+' ∉ s)) ∧
      (∀ d, SlurmDependency.fromStr s = .ok d →
        ((∃ v : SlurmDependency, v.WellFormed ∧ v.Spells Digits s) ↔ ¬ ("++" : Str) <:+: s)) ∧
      (∀ spec, SlurmSignalSpec.fromStr s = .ok spec →
        ((∃ v : SlurmSignalSpec, v.Spells Digits s) ↔ '+' ∉ s)) ∧
      (∀ t, JobTimeLimit.fromStr s = .ok t →
        ((∃ v : JobTimeLimit, v.Spells Digits s) ↔ '+' ∉ s)) ∧
      (∀ spec, ResourceSpec.fromStr s = .ok spec →
        ((∃ v : ResourceSpec, v.Spells Digits s) ↔ '+' ∉ s)) ∧
      ∀ memory, Memory.fromStr s = .ok memory →
        ((∃ v : Memory, v.Spells Digits s) ↔ '+' ∉ s) := by
  refine ⟨?_, ?_, ?_, ?_, ?_, ?_⟩
  · intro spec h
    obtain ⟨hspells, hwf⟩ := SlurmArraySpec.spells_of_fromStr h
    exact ⟨fun ⟨_, _, hv⟩ => hv.plus_not_mem, fun hplus => ⟨spec, hwf, hspells.digits hplus⟩⟩
  · intro d h
    obtain ⟨hspells, hwf⟩ := SlurmDependency.fromStr_eq_ok.mp h
    exact ⟨fun ⟨_, _, hv⟩ => hv.plus_plus, fun hplus => ⟨d, hwf, hspells.digits hplus⟩⟩
  · intro spec h
    have hspells := SlurmSignalSpec.spells_of_fromStr h
    exact ⟨fun ⟨_, hv⟩ => hv.plus_not_mem, fun hplus => ⟨spec, hspells.digits hplus⟩⟩
  · intro t h
    have hspells := JobTimeLimit.spells_of_fromStr h
    exact ⟨fun ⟨_, hv⟩ => hv.plus_not_mem, fun hplus => ⟨t, hspells.digits hplus⟩⟩
  · intro spec h
    have hspells := ResourceSpec.spells_of_fromStr h
    exact ⟨fun ⟨_, hv⟩ => hv.plus_not_mem, fun hplus => ⟨spec, hspells.digits hplus⟩⟩
  · intro memory h
    have hspells := Memory.spells_of_fromStr h
    exact ⟨fun ⟨_, hv⟩ => hv.plus_not_mem, fun hplus => ⟨memory, hspells.digits hplus⟩⟩

/-- A time limit of minutes and seconds. -/
theorem grammar_digits_minutes : ∃ v : JobTimeLimit, v.Spells Digits "5:30" :=
  ((grammar_digits_iff "5:30").2.2.2.1 ⟨⟨330, by decide⟩⟩ (by decide +kernel)).mpr
    (by decide +kernel)

/-- A second plus sign in a delay and a sign before the minutes of a time limit are accepted. -/
theorem sign_accepted :
    (SlurmDependency.fromStr "after:200++5" = .ok ⟨[⟨.after, [⟨200, some 5⟩]⟩], .and⟩ ∧
        ¬ ∃ v : SlurmDependency, v.Spells Digits "after:200++5") ∧
      JobTimeLimit.fromStr "+5" = .ok ⟨⟨300, by decide⟩⟩ ∧
        ¬ ∃ v : JobTimeLimit, v.Spells Digits "+5" := by
  refine ⟨⟨by decide +kernel, ?_⟩, by decide +kernel, ?_⟩
  · rintro ⟨v, hv⟩
    exact hv.plus_plus ⟨"after:200", "5", by decide +kernel⟩
  · rintro ⟨v, hv⟩
    exact hv.plus_not_mem (by decide +kernel)

end Slurm

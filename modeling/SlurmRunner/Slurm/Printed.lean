/-
# Values with the same text

Two values of an option that are printed as the same text are the same value.  For most options this
is because the parser reads the text back.  No parser reads the text of an empty list of mail types,
and of a request for resources it holds of what the request asks for, since a request for nothing is
not printed.
-/
import SlurmRunner.Slurm.ArraySpec
import SlurmRunner.Slurm.Canonical
import SlurmRunner.Slurm.Dependency
import SlurmRunner.Slurm.Listing

namespace Slurm

open Text

/-- A text is read as one value. -/
theorem eq_of_read {ε α : Type} {read : Str → Except ε α} {s s' : Str} {a a' : α}
    (h : read s = .ok a) (h' : read s' = .ok a') (hs : s = s') : a = a' := by
  rw [hs, h'] at h
  exact (Except.ok.inj h).symm

/-! ## 1. Numbers and times

Decimal numerals have no leading zeros, so a number has one. -/

/-- A numeral tells its number. -/
theorem decimal_inj {n m : Nat} (h : decimal n = decimal m) : n = m := by
  have hread := parseDigits_decimal n
  rw [h, parseDigits_decimal] at hread
  exact (Option.some.inj hread).symm

/-- A hyphen begins no unsigned number. -/
theorem decimal_ne_cons_dash (n : Nat) (s : Str) : decimal n ≠ '-' :: s := by
  intro h
  have hdash : '-' ∈ decimal n := by
    rw [h]
    exact List.mem_cons_self
  exact absurd (isDigit_of_mem_decimal hdash) (by decide)

/-- So does a numeral with a sign. -/
theorem showI32_inj {n m : Int} (h : showI32 n = showI32 m) : n = m := by
  unfold showI32 at h
  by_cases hn : n < 0
  · by_cases hm : m < 0
    · rw [if_pos hn, if_pos hm] at h
      have habs := decimal_inj (List.cons.inj h).2
      omega
    · rw [if_pos hn, if_neg hm] at h
      exact absurd h.symm (decimal_ne_cons_dash _ _)
  · by_cases hm : m < 0
    · rw [if_neg hn, if_pos hm] at h
      exact absurd h (decimal_ne_cons_dash _ _)
    · rw [if_neg hn, if_neg hm] at h
      have habs := decimal_inj h
      omega

/-- A time limit is read back from its text. -/
theorem JobTimeLimit.toStr_inj {t t' : JobTimeLimit} (h : t.toStr = t'.toStr) : t = t' :=
  eq_of_read (fromStr_toStr t) (fromStr_toStr t') h

/-! ## 2. Specifications

Those that are well formed are read back. -/

/-- The text tells a well-formed specification. -/
theorem SlurmArraySpec.toStr_inj {spec spec' : SlurmArraySpec} (hspec : spec.WellFormed)
    (hspec' : spec'.WellFormed) (h : spec.toStr = spec'.toStr) : spec = spec' :=
  eq_of_read hspec.fromStr_toStr hspec'.fromStr_toStr h

/-- A well-formed dependency is read back. -/
theorem SlurmDependency.WellFormed.fromStr_toStr {d : SlurmDependency} (h : d.WellFormed) :
    fromStr d.toStr = .ok d :=
  fromStr_eq_ok.mpr ⟨d.spells_toStr.imp fun _ _ _ => Digits.signed, h⟩

/-- The text tells a well-formed dependency. -/
theorem SlurmDependency.toStr_inj {d d' : SlurmDependency} (hd : d.WellFormed) (hd' : d'.WellFormed)
    (h : d.toStr = d'.toStr) : d = d' :=
  eq_of_read hd.fromStr_toStr hd'.fromStr_toStr h

/-- The text tells a well-formed signal. -/
theorem SlurmSignalSpec.toStr_inj {spec spec' : SlurmSignalSpec} (hspec : spec.WellFormed)
    (hspec' : spec'.WellFormed) (h : spec.toStr = spec'.toStr) : spec = spec' :=
  eq_of_read hspec.fromStr_toStr hspec'.fromStr_toStr h

/-! ## 3. Mail types

A name for each type, with commas between them. -/

/-- `MailType::try_from`. -/
def MailType.tryFrom (value : Str) : Except SchemaParseError MailType :=
  if value = "BEGIN" then .ok .begin
  else if value = "END" then .ok .end
  else if value = "FAIL" then .ok .fail
  else if value = "REQUEUE" then .ok .requeue
  else if value = "ALL" then .ok .all
  else .error (.parseError "mail_types" value)

/-- `MailTypeInput::try_from`. -/
def MailTypeInput.tryFrom (value : Str) : Except SchemaParseError MailTypeInput :=
  (value.splitOn ',').mapM MailType.tryFrom

/-- Each name is read as its type. -/
theorem MailType.tryFrom_asSlurmStr (m : MailType) : tryFrom m.asSlurmStr = .ok m := by
  cases m <;> decide +kernel

theorem MailType.asSlurmStr_ne_nil (m : MailType) : m.asSlurmStr ≠ [] := by
  cases m <;> decide

/-- A list of mail types is read back, if there is one in it. -/
theorem MailTypeInput.tryFrom_toStr {types : MailTypeInput} (h : types ≠ []) :
    tryFrom (toStr types) = .ok types := by
  have hcomma : ∀ m ∈ types, ',' ∉ m.asSlurmStr := by
    intro m _
    cases m <;> decide
  exact mapM_splitOn_intercalate h hcomma fun m _ => m.tryFrom_asSlurmStr

/-- A list with a type in it is not printed as nothing. -/
theorem MailTypeInput.toStr_ne_nil {types : MailTypeInput} (h : types ≠ []) : toStr types ≠ [] := by
  obtain ⟨m, hm⟩ := List.exists_mem_of_ne_nil types h
  exact intercalate_ne_nil (List.mem_map_of_mem hm) m.asSlurmStr_ne_nil

/-- The text tells the list: it is read back, or it is nothing. -/
theorem MailTypeInput.toStr_inj {types types' : MailTypeInput} (h : toStr types = toStr types') :
    types = types' := by
  by_cases hnil : types = []
  · by_contra hne
    subst hnil
    exact toStr_ne_nil (Ne.symm hne) h.symm
  · by_cases hnil' : types' = []
    · subst hnil'
      exact absurd h (toStr_ne_nil hnil)
    · exact eq_of_read (tryFrom_toStr hnil) (tryFrom_toStr hnil') h

/-! ## 4. Requests for resources

A request for nothing is printed as nothing, which is the option left out. -/

namespace ResourceSpec

/-- A request, if it asks for anything. -/
def asked (rsc : Option ResourceSpec) : Option ResourceSpec := rsc.filter (· ≠ unspecified)

/-- Only the request for nothing has no text. -/
theorem toStr_eq_nil_iff (spec : ResourceSpec) : spec.toStr = [] ↔ spec = unspecified := by
  constructor
  · intro hnil
    by_contra hne
    obtain ⟨acc, hacc⟩ := exists_toSpec_of_ne hne
    have hread := fromStr_toStr_of_toSpec hacc
    rw [hnil] at hread
    cases hread
  · rintro rfl
    rfl

/-- The text tells a request for something. -/
theorem toStr_inj {spec spec' : ResourceSpec} (hne : spec ≠ unspecified)
    (hne' : spec' ≠ unspecified) (h : spec.toStr = spec'.toStr) : spec = spec' := by
  obtain ⟨acc, hacc⟩ := exists_toSpec_of_ne hne
  obtain ⟨acc', hacc'⟩ := exists_toSpec_of_ne hne'
  exact eq_of_read (fromStr_toStr_of_toSpec hacc) (fromStr_toStr_of_toSpec hacc') h

/-- A request is printed if and only if it asks for something. -/
theorem filter_toStr (rsc : Option ResourceSpec) :
    (rsc.map toStr).filter (· ≠ []) = (asked rsc).map toStr := by
  cases rsc with
  | none => rfl
  | some spec =>
    by_cases h : spec = unspecified
    · subst h
      rfl
    · have hne : spec.toStr ≠ [] := fun hnil => h ((toStr_eq_nil_iff spec).mp hnil)
      simp [asked, Option.filter, h, hne]

/-- What is asked for is something. -/
theorem ne_of_asked {rsc : Option ResourceSpec} {spec : ResourceSpec} (h : asked rsc = some spec) :
    spec ≠ unspecified := by
  have hfilter := Option.filter_eq_some_iff.mp h
  simpa using hfilter.2

/-- **The text of a request tells what it asks for.** -/
theorem asked_eq_of_map_toStr {rsc rsc' : Option ResourceSpec}
    (h : (asked rsc).map toStr = (asked rsc').map toStr) : asked rsc = asked rsc' := by
  cases hr : asked rsc with
  | none =>
    rw [hr] at h
    exact (Option.map_eq_none_iff.mp h.symm).symm
  | some spec =>
    cases hr' : asked rsc' with
    | none =>
      rw [hr, hr'] at h
      cases h
    | some spec' =>
      rw [hr, hr'] at h
      rw [toStr_inj (ne_of_asked hr) (ne_of_asked hr') (Option.some.inj h)]

end ResourceSpec

end Slurm

/-
# Dependencies as text

The parser of `--dependency`.  A specification is a list of clauses between commas or between
question marks, and a clause is a list between colons, the first of which is its type.  The parser
accepts well-formed dependencies only, and these are the ones that read back from their own text
(`dependency_round_trip`): an empty list, or one clause that is joined by `Or`, does not.
-/
import SlurmRunner.Slurm.ArraySpec
import SlurmRunner.Slurm.Options

namespace Slurm

open Text

/-! ## 1. Parsing

The parser splits the text at its separators and then reads each part. -/

/-- `takes_jobs`. -/
def DependencyType.takesJobs : DependencyType → Bool
  | singleton => false
  | _ => true

/-- `from_str`. -/
def DependencyType.fromStr (s : Str) : Except SchemaParseError DependencyType :=
  if s = "after" then .ok after
  else if s = "afterany" then .ok afterAny
  else if s = "afterburstbuffer" then .ok afterBurstBuffer
  else if s = "aftercorr" then .ok afterCorr
  else if s = "afternotok" then .ok afterNotOk
  else if s = "afterok" then .ok afterOk
  else if s = "singleton" then .ok singleton
  else .error (.parseError "dependency/type" s)

/-- `parse_job_ref`. -/
def parseJobRef (s : Str) (allowDelay : Bool) : Except SchemaParseError DependencyJobRef :=
  let err : Except SchemaParseError DependencyJobRef := .error (.parseError "dependency/job_id" s)
  if s = [] then err
  else match splitOnce '+' s with
    | some (id, delay) =>
      if allowDelay = false then err
      else match parseU32 id, parseU32 delay with
        | some jobId, some delayMinutes => .ok ⟨jobId, some delayMinutes⟩
        | _, _ => err
    | none =>
      match parseU32 s with
      | some jobId => .ok ⟨jobId, none⟩
      | none => err

/-- `parse_clause`. -/
def parseClause (s : Str) : Except SchemaParseError DependencyClause :=
  let err : Except SchemaParseError DependencyClause := .error (.parseError "dependency/clause" s)
  if s = [] then err
  else match s.splitOn ':' with
    | [] => err
    | head :: rawJobs =>
      match DependencyType.fromStr head with
      | .error e => .error e
      | .ok depType =>
        if depType.takesJobs = false then
          if rawJobs ≠ [] then err else .ok ⟨depType, []⟩
        else if rawJobs = [] then err
        else (rawJobs.mapM fun j => parseJobRef j (depType = .after)).map fun refs =>
          ⟨depType, refs⟩

/-- `from_str`. -/
def SlurmDependency.fromStr (s : Str) : Except SchemaParseError SlurmDependency :=
  let err : Except SchemaParseError SlurmDependency := .error (.parseError "dependency" s)
  if s = [] then err
  else if ',' ∈ s ∧ '?' ∈ s then err
  else
    let join := if '?' ∈ s then DependencyJoin.or else .and
    match (s.splitOn join.asChar).mapM parseClause with
    | .error e => .error e
    | .ok clauses => if clauses = [] then err else .ok ⟨clauses, join⟩

/-- A clause that its parser makes. -/
structure DependencyClause.WellFormed (c : DependencyClause) : Prop where
  jobs : c.jobRefs = [] ↔ c.depType = .singleton
  delays : c.depType ≠ .after → ∀ r ∈ c.jobRefs, r.delayMinutes = none

/-- A dependency that its parser makes. -/
structure SlurmDependency.WellFormed (d : SlurmDependency) : Prop where
  nonempty : d.clauses ≠ []
  clauses : ∀ c ∈ d.clauses, c.WellFormed
  /-- One clause has no separator to tell how it is joined. -/
  join : 2 ≤ d.clauses.length ∨ d.join = .and

/-! ## 2. The grammar

`N` says which texts are numerals, so the grammar is stated once for the signed numerals of the
parser and for the digits of the documentation. -/

/-- `s` spells the reference, with the delay as a numeral of `N`. -/
inductive DependencyJobRef.Spells (N : Str → Nat → Prop) : Str → DependencyJobRef → Prop
  | plain {s : Str} {jobId : UInt32} (hid : Digits s jobId.toNat) : Spells N s ⟨jobId, none⟩
  | delayed {s d : Str} {jobId m : UInt32} (hid : Digits s jobId.toNat) (hdelay : N d m.toNat) :
      Spells N (s ++ '+' :: d) ⟨jobId, some m⟩

/-- `s` spells the clause. -/
def DependencyClause.Spells (N : Str → Nat → Prop) (s : Str) (c : DependencyClause) : Prop :=
  ∃ texts, s = List.intercalate [':'] (c.depType.asKeyword :: texts) ∧
    List.Forall₂ (DependencyJobRef.Spells N) texts c.jobRefs

/-- `s` spells the dependency. -/
def SlurmDependency.Spells (N : Str → Nat → Prop) (s : Str) (d : SlurmDependency) : Prop :=
  ∃ texts, s = List.intercalate [d.join.asChar] texts ∧
    List.Forall₂ (DependencyClause.Spells N) texts d.clauses

section Spells

variable {N N' : Str → Nat → Prop} {s : Str}

/-- Other numerals will do if they do for the delays in `s`. -/
theorem DependencyJobRef.Spells.imp {r : DependencyJobRef} (h : r.Spells N s)
    (himp : ∀ d n, '+' :: d <:+: s → N d n → N' d n) : r.Spells N' s := by
  cases h with
  | plain hid => exact .plain hid
  | delayed hid hdelay =>
    exact .delayed hid (himp _ _ (List.suffix_append _ _).isInfix hdelay)

theorem DependencyClause.Spells.imp {c : DependencyClause} (h : c.Spells N s)
    (himp : ∀ d n, '+' :: d <:+: s → N d n → N' d n) : c.Spells N' s := by
  obtain ⟨texts, rfl, hrefs⟩ := h
  refine ⟨texts, rfl, forall₂_imp_of_mem hrefs ?_⟩
  intro text htext r _ hr
  have hinfix := infix_intercalate (c := ':') (List.mem_cons_of_mem c.depType.asKeyword htext)
  exact hr.imp fun d n hd => himp d n (hd.trans hinfix)

theorem SlurmDependency.Spells.imp {d : SlurmDependency} (h : d.Spells N s)
    (himp : ∀ d n, '+' :: d <:+: s → N d n → N' d n) : d.Spells N' s := by
  obtain ⟨texts, rfl, hclauses⟩ := h
  refine ⟨texts, rfl, forall₂_imp_of_mem hclauses ?_⟩
  intro text htext c _ hc
  have hinfix := infix_intercalate (c := d.join.asChar) htext
  exact hc.imp fun d n hd => himp d n (hd.trans hinfix)

/-- A reference has nothing but digits and plus signs. -/
theorem DependencyJobRef.Spells.not_mem {r : DependencyJobRef} (h : r.Spells Signed s) {x : Char}
    (hdigit : x.isDigit = false) (hplus : x ≠ '+') : x ∉ s := by
  cases h with
  | plain hid => exact hid.not_mem hdigit
  | delayed hid hdelay => simp [hid.not_mem hdigit, hdelay.not_mem hdigit hplus, hplus]

/-- A clause has its keyword, colons and references. -/
theorem DependencyClause.Spells.not_mem {c : DependencyClause} (h : c.Spells Signed s) {x : Char}
    (hdigit : x.isDigit = false) (hplus : x ≠ '+') (hcolon : x ≠ ':')
    (hkeyword : ∀ t : DependencyType, x ∉ t.asKeyword) : x ∉ s := by
  obtain ⟨texts, rfl, hrefs⟩ := h
  refine not_mem_intercalate hcolon ?_
  intro text htext
  rcases List.mem_cons.mp htext with rfl | htext
  · exact hkeyword c.depType
  · obtain ⟨r, -, hr⟩ := exists_of_mem_left hrefs htext
    exact hr.not_mem hdigit hplus

end Spells

/-! ## 3. What is accepted

The parser accepts the texts of the grammar and nothing else, from the keywords up to the whole
dependency. -/

/-- A keyword is read back. -/
theorem DependencyType.fromStr_asKeyword (t : DependencyType) : fromStr t.asKeyword = .ok t := by
  cases t <;> decide +kernel

/-- A type is read from its keyword alone. -/
theorem DependencyType.fromStr_eq_ok {s : Str} {t : DependencyType} :
    fromStr s = .ok t ↔ s = t.asKeyword := by
  constructor
  · intro h
    unfold fromStr at h
    split_ifs at h with h₁ h₂ h₃ h₄ h₅ h₆ h₇
    all_goals
      cases h
      assumption
  · rintro rfl
    exact fromStr_asKeyword t

theorem DependencyType.colon_not_mem (t : DependencyType) : ':' ∉ t.asKeyword := by
  cases t <;> decide +kernel

/-- The references that are accepted: the delay is read by the parser of numbers, which takes a
sign, and the id is what stands before the first plus sign. -/
theorem parseJobRef_eq_ok {s : Str} {allowDelay : Bool} {r : DependencyJobRef} :
    parseJobRef s allowDelay = .ok r ↔
      r.Spells Signed s ∧ (r.delayMinutes ≠ none → allowDelay = true) := by
  constructor
  · intro h
    unfold parseJobRef at h
    dsimp only at h
    split at h
    · cases h
    split at h
    · rename_i id delay hsplit
      obtain ⟨rfl, hplus⟩ := splitOnce_eq_some_iff.mp hsplit
      split at h
      · cases h
      rename_i hallow
      split at h
      · rename_i jobId m hjob hdelay
        cases h
        have hid := (parseU32_eq_some_iff.mp hjob).digits hplus
        exact ⟨.delayed hid (parseU32_eq_some_iff.mp hdelay), fun _ => by simpa using hallow⟩
      · cases h
    · rename_i hsplit
      split at h
      · rename_i jobId hjob
        cases h
        have hplus := splitOnce_eq_none_iff.mp hsplit
        exact ⟨.plain ((parseU32_eq_some_iff.mp hjob).digits hplus), by simp⟩
      · cases h
  · rintro ⟨hspells, hallow⟩
    cases hspells with
    | @plain _ jobId hid =>
      rw [parseJobRef, if_neg hid.ne_nil, splitOnce_eq_none hid.plus_not_mem]
      simp only [parseU32_eq_some_iff.mpr hid.signed]
    | @delayed id d jobId m hid hdelay =>
      have hallowed : ¬ allowDelay = false := by simp [hallow]
      rw [parseJobRef, if_neg (by simp), splitOnce_append hid.plus_not_mem]
      simp only [if_neg hallowed, parseU32_eq_some_iff.mpr hid.signed,
        parseU32_eq_some_iff.mpr hdelay]

/-- Only `singleton` names no jobs. -/
theorem DependencyType.takesJobs_eq_false {t : DependencyType} :
    t.takesJobs = false ↔ t = .singleton := by
  cases t <;> decide

theorem DependencyType.asKeyword_ne_nil (t : DependencyType) : t.asKeyword ≠ [] := by
  cases t <;> decide +kernel

/-- What is accepted as a clause is one, with references as its type has them. -/
theorem spells_of_parseClause {s : Str} {c : DependencyClause} (h : parseClause s = .ok c) :
    c.Spells Signed s ∧ c.WellFormed := by
  unfold parseClause at h
  dsimp only at h
  split at h
  · cases h
  split at h
  · cases h
  rename_i head rawJobs hsplit
  obtain ⟨-, -, hs⟩ := splitOn_eq_iff.mp hsplit
  split at h
  · cases h
  rename_i depType htype
  obtain rfl := DependencyType.fromStr_eq_ok.mp htype
  split at h
  · rename_i htakes
    have hsingleton := DependencyType.takesJobs_eq_false.mp htakes
    split at h
    · cases h
    rename_i hraw
    cases h
    rw [ne_eq, not_not] at hraw
    subst hraw
    exact ⟨⟨[], hs, .nil⟩, by simp [hsingleton], by simp⟩
  · rename_i htakes
    have hother : depType ≠ .singleton := fun heq =>
      htakes (DependencyType.takesJobs_eq_false.mpr heq)
    split at h
    · cases h
    rename_i hraw
    obtain ⟨refs, hrefs, rfl⟩ := map_eq_ok.mp h
    have hread := mapM_eq_ok.mp hrefs
    refine ⟨⟨rawJobs, hs, hread.imp fun _ _ hr => (parseJobRef_eq_ok.mp hr).1⟩, ?_, ?_⟩
    · have hne : refs ≠ [] := by
        rintro rfl
        exact hraw (List.forall₂_nil_right_iff.mp hread)
      simp [hne, hother]
    · intro hafter r hr
      obtain ⟨text, -, htext⟩ := exists_of_mem_right hread hr
      by_contra hdelay
      have hallowed := (parseJobRef_eq_ok.mp htext).2 hdelay
      exact hafter (by simpa using hallowed)

/-- A well-formed clause is read from each of its texts. -/
theorem parseClause_of_spells {s : Str} {c : DependencyClause} (h : c.Spells Signed s)
    (hwf : c.WellFormed) : parseClause s = .ok c := by
  obtain ⟨depType, refs⟩ := c
  obtain ⟨texts, rfl, hrefs⟩ := h
  have hpieces : (List.intercalate [':'] (depType.asKeyword :: texts)).splitOn ':' =
      depType.asKeyword :: texts := by
    refine List.splitOn_intercalate ':' ?_ (by simp)
    intro text htext
    rcases List.mem_cons.mp htext with rfl | htext
    · exact depType.colon_not_mem
    · obtain ⟨r, -, hr⟩ := exists_of_mem_left hrefs htext
      exact hr.not_mem rfl (by decide)
  have hnil : List.intercalate [':'] (depType.asKeyword :: texts) ≠ [] :=
    intercalate_ne_nil List.mem_cons_self depType.asKeyword_ne_nil
  rw [parseClause, if_neg hnil, hpieces]
  simp only [DependencyType.fromStr_asKeyword, DependencyType.takesJobs_eq_false]
  by_cases hsingleton : depType = .singleton
  · -- no references, and no texts
    obtain rfl : refs = [] := hwf.jobs.mpr hsingleton
    obtain rfl : texts = [] := List.forall₂_nil_right_iff.mp hrefs
    simp [hsingleton]
  · have hrefs' : refs ≠ [] := fun heq => hsingleton (hwf.jobs.mp heq)
    have htexts : texts ≠ [] := by
      rintro rfl
      exact hrefs' (List.forall₂_nil_left_iff.mp hrefs)
    rw [if_neg hsingleton, if_neg htexts]
    refine map_eq_ok.mpr ⟨refs, mapM_eq_ok.mpr (forall₂_imp_of_mem hrefs ?_), rfl⟩
    intro text _ r hr hspells
    refine parseJobRef_eq_ok.mpr ⟨hspells, fun hdelay => ?_⟩
    by_contra hafter
    exact hdelay (hwf.delays (by simpa using hafter) r hr)

/-- **The clauses that are accepted** are the well-formed ones, each by its texts. -/
theorem parseClause_eq_ok {s : Str} {c : DependencyClause} :
    parseClause s = .ok c ↔ c.Spells Signed s ∧ c.WellFormed :=
  ⟨spells_of_parseClause, fun h => parseClause_of_spells h.1 h.2⟩

/-- A clause has no separator of clauses. -/
theorem DependencyClause.Spells.separators {s : Str} {c : DependencyClause}
    (h : c.Spells Signed s) : ',' ∉ s ∧ '?' ∉ s := by
  have hcomma : ∀ t : DependencyType, ',' ∉ t.asKeyword := by
    intro t
    cases t <;> decide +kernel
  have hmark : ∀ t : DependencyType, '?' ∉ t.asKeyword := by
    intro t
    cases t <;> decide +kernel
  exact ⟨h.not_mem rfl (by decide) (by decide) hcomma, h.not_mem rfl (by decide) (by decide) hmark⟩

/-- How the clauses are joined can be told from the text. -/
theorem SlurmDependency.join_of_spells {s : Str} {d : SlurmDependency} (h : d.Spells Signed s)
    (hwf : d.WellFormed) :
    ¬ (',' ∈ s ∧ '?' ∈ s) ∧ (if '?' ∈ s then DependencyJoin.or else .and) = d.join := by
  obtain ⟨texts, rfl, hclauses⟩ := h
  have hfree : ∀ text ∈ texts, ',' ∉ text ∧ '?' ∉ text := by
    intro text htext
    obtain ⟨c, -, hc⟩ := exists_of_mem_left hclauses htext
    exact hc.separators
  cases hjoin : d.join with
  | and =>
    have hmark : '?' ∉ List.intercalate [','] texts :=
      not_mem_intercalate (by decide) fun text htext => (hfree text htext).2
    exact ⟨fun hboth => hmark hboth.2, if_neg hmark⟩
  | or =>
    have hcomma : ',' ∉ List.intercalate ['?'] texts :=
      not_mem_intercalate (by decide) fun text htext => (hfree text htext).1
    have htwo : 2 ≤ texts.length := by
      rw [hclauses.length_eq]
      exact hwf.join.resolve_right (by simp [hjoin])
    exact ⟨fun hboth => hcomma hboth.1, if_pos (mem_intercalate htwo)⟩

/-- **The dependencies that are accepted** are the well-formed ones, each by its texts. -/
theorem SlurmDependency.fromStr_eq_ok {s : Str} {d : SlurmDependency} :
    fromStr s = .ok d ↔ d.Spells Signed s ∧ d.WellFormed := by
  constructor
  · intro h
    unfold fromStr at h
    dsimp only at h
    split at h
    · cases h
    split at h
    · cases h
    split at h
    · cases h
    rename_i clauses hclauses
    split at h
    · cases h
    rename_i hne
    cases h
    obtain ⟨pieces, -, -, hs, hread⟩ := mapM_splitOn_eq_ok.mp hclauses
    refine ⟨⟨pieces, hs, hread.imp fun _ _ hc => (parseClause_eq_ok.mp hc).1⟩, hne, ?_, ?_⟩
    · intro c hc
      obtain ⟨piece, -, hpiece⟩ := exists_of_mem_right hread hc
      exact (parseClause_eq_ok.mp hpiece).2
    · by_cases hor : '?' ∈ s
      · have htwo : 2 ≤ (s.splitOn DependencyJoin.or.asChar).length := two_le_length_splitOn hor
        rw [if_pos hor] at hclauses
        rw [(mapM_eq_ok.mp hclauses).length_eq] at htwo
        exact .inl htwo
      · exact .inr (if_neg hor)
  · rintro ⟨hspells, hwf⟩
    obtain ⟨hboth, hjoin⟩ := join_of_spells hspells hwf
    obtain ⟨clauses, join⟩ := d
    obtain ⟨texts, rfl, hclauses⟩ := hspells
    have hread : List.Forall₂ (fun text c => parseClause text = .ok c) texts clauses :=
      forall₂_imp_of_mem hclauses fun _ _ c hc hspells =>
        parseClause_of_spells hspells (hwf.clauses c hc)
    -- no clause has the separator in its text, so the pieces are the clauses
    have hpieces : (List.intercalate [join.asChar] texts).splitOn join.asChar = texts := by
      refine List.splitOn_intercalate _ ?_ ?_
      · intro text htext
        obtain ⟨c, -, hc⟩ := exists_of_mem_left hclauses htext
        cases join with
        | and => exact hc.separators.1
        | or => exact hc.separators.2
      · rintro rfl
        exact hwf.nonempty (List.forall₂_nil_left_iff.mp hclauses)
    have hnil : List.intercalate [join.asChar] texts ≠ [] := by
      intro hnil
      rw [hnil, List.splitOn_nil] at hpieces
      subst hpieces
      obtain ⟨c, -, hc⟩ := exists_of_mem_left hread List.mem_cons_self
      cases hc
    dsimp only at hjoin
    rw [fromStr, if_neg hnil, if_neg hboth]
    simp only [hjoin, hpieces, mapM_eq_ok.mpr hread, if_neg hwf.nonempty]

/-! ## 4. The round trip

What is printed is spelled by digits, and every well-formed dependency is read back. -/

/-- A reference is printed as the grammar spells it. -/
theorem DependencyJobRef.spells_toStr (r : DependencyJobRef) : r.Spells Digits r.toStr := by
  obtain ⟨jobId, delay⟩ := r
  cases delay with
  | none => exact .plain (digits_decimal _)
  | some m => exact .delayed (digits_decimal _) (digits_decimal _)

/-- So is a clause. -/
theorem DependencyClause.spells_toStr (c : DependencyClause) : c.Spells Digits c.toStr := by
  refine ⟨c.jobRefs.map DependencyJobRef.toStr, append_flatMap_eq_intercalate _ _ _, ?_⟩
  rw [List.forall₂_map_left_iff, List.forall₂_same]
  exact fun r _ => r.spells_toStr

/-- What is printed is spelt with digits alone. -/
theorem SlurmDependency.spells_toStr (d : SlurmDependency) : d.Spells Digits d.toStr := by
  refine ⟨d.clauses.map DependencyClause.toStr, rfl, ?_⟩
  rw [List.forall₂_map_left_iff, List.forall₂_same]
  exact fun c _ => c.spells_toStr

/-- **A dependency reads back from its text if and only if it is well formed**, and every accepted
one is. -/
theorem SlurmDependency.dependency_round_trip (d : SlurmDependency) :
    (fromStr d.toStr = .ok d ↔ d.WellFormed) ∧ ∀ s, fromStr s = .ok d → d.WellFormed := by
  refine ⟨?_, fun s hs => (fromStr_eq_ok.mp hs).2⟩
  rw [fromStr_eq_ok]
  refine ⟨And.right, fun hwf => ⟨?_, hwf⟩⟩
  exact d.spells_toStr.imp fun _ _ _ => Digits.signed

/-- An accepted text, with a delay and with a clause that has no jobs. -/
theorem SlurmDependency.dependency_round_trip_delay :
    SlurmDependency.WellFormed ⟨[⟨.after, [⟨200, some 5⟩]⟩, ⟨.singleton, []⟩], .or⟩ :=
  (SlurmDependency.dependency_round_trip _).2 "after:200+5?singleton" (by decide +kernel)

end Slurm

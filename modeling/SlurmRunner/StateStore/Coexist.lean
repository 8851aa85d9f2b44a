/-
# Two kinds of snapshots in one directory

Two stores share a directory and save different uuids.  `load` and `list` look at the kind of a
file, so that neither store sees what the other has saved; `delete` does not.  As long as no delete
meets a file of the other kind, each store has the replies that it would have alone
(`coexist`).

What a store would have in a directory of its own is the part of the shared one with the names that
it has saved (`mine`); each step of either store keeps it so.
-/
import SlurmRunner.StateStore.Refinement

namespace StateStore

open Text Serde

variable {S S' Bytes : Type}

/-! ## 1. Runs of two stores

The calls of both stores work on one directory, in any order. A call that deletes names a file by
its uuid, so it is asked that no store deletes a file of the other kind. -/

/-- A call and its reply. -/
abbrev Event (S : Type) := Call S × Reply S

section Shared

variable (J : JobSnapshot S) (K : JobSnapshot S') (U : UuidFormat) (txt : JsonText Bytes)

/-- A run of two stores in one directory, in which every call is `Allowed` in the state that it
finds. -/
inductive SharedRuns (Allowed : Root Bytes → Call S ⊕ Call S' → Prop) :
    Root Bytes → List (Event S ⊕ Event S') → Root Bytes → Prop
  | nil (root : Root Bytes) : SharedRuns Allowed root [] root
  | left {root root' root'' : Root Bytes} {c : Call S} {r : Reply S}
      {es : List (Event S ⊕ Event S')} : Allowed root (.inl c) →
      (fileSystem J U txt).Answers J root c r root' → SharedRuns Allowed root' es root'' →
      SharedRuns Allowed root (.inl (c, r) :: es) root''
  | right {root root' root'' : Root Bytes} {c : Call S'} {r : Reply S'}
      {es : List (Event S ⊕ Event S')} : Allowed root (.inr c) →
      (fileSystem K U txt).Answers K root c r root' → SharedRuns Allowed root' es root'' →
      SharedRuns Allowed root (.inr (c, r) :: es) root''

/-- The file of a uuid is not of another kind. -/
def NotForeign (J : JobSnapshot S) (root : Root Bytes) (u : Nat) : Prop :=
  ∀ bytes, root.read (pathFor U u) = some bytes →
    decodeWithKindCheck J txt (pathFor U u) bytes ≠ .ok none

/-- A delete does not meet a file of the other kind. -/
def OwnDeletes (root : Root Bytes) : Call S ⊕ Call S' → Prop
  | .inl (.delete u) => NotForeign U txt J root u
  | .inr (.delete u) => NotForeign U txt K root u
  | _ => True

variable {J K U txt}

/-- The condition is the same, whichever store is named first. -/
theorem ownDeletes_swap (root : Root Bytes) (c : Call S ⊕ Call S') :
    OwnDeletes K J U txt root c.swap ↔ OwnDeletes J K U txt root c := by
  rcases c with c | c <;> cases c <;> rfl

/-- The same run with the sides exchanged. -/
theorem SharedRuns.swap {root root' : Root Bytes} {es : List (Event S ⊕ Event S')}
    (h : SharedRuns J K U txt (OwnDeletes J K U txt) root es root') :
    SharedRuns K J U txt (OwnDeletes K J U txt) root (es.map Sum.swap) root' := by
  induction h with
  | nil root => exact .nil root
  | left hok hc _ ih => exact .right ((ownDeletes_swap _ _).mpr hok) hc ih
  | right hok hc _ ih => exact .left ((ownDeletes_swap _ _).mpr hok) hc ih

end Shared

/-- What `list` returns may come in any order. -/
theorem fileSystem_unordered (J : JobSnapshot S) (U : UuidFormat) (txt : JsonText Bytes) :
    (fileSystem J U txt).Unordered := by
  rintro root _ _ ⟨entries, h, rfl⟩ ⟨entries', h', rfl⟩
  exact (h.trans h'.symm).filterMap _

/-! ## 2. One's own part of the directory

The files of the directory are divided by who has written them.  The own part of a store is the
directory that it would have if it were alone. -/

section Own

variable {J : JobSnapshot S} {K : JobSnapshot S'} {P : S → Prop} {Q : S' → Prop}
  {names names' : List Str} {U : UuidFormat} {txt : JsonText Bytes} {mine : Str → Bool}

/-- The files with names of `mine` are snapshots of the one kind, the others of the other. -/
def Mixed (J : JobSnapshot S) (K : JobSnapshot S') (P : S → Prop) (Q : S' → Prop) (U : UuidFormat)
    (txt : JsonText Bytes) (mine : Str → Bool) (root : Root Bytes) : Prop :=
  ∀ e ∈ root.files, (mine e.1 = true → ∃ s, P s ∧ e = entry J U txt s) ∧
    (mine e.1 = false → ∃ s, Q s ∧ e = entry K U txt s)

/-- A directory of the own files alone. -/
def OwnPart (mine : Str → Bool) (own root : Root Bytes) : Prop :=
  own.files = root.files.filter fun e => mine e.1

/-- What one's own directory has under a name. -/
theorem OwnPart.read {own root : Root Bytes} (h : OwnPart mine own root) (name : Str) :
    own.read name = if mine name then root.read name else none := by
  rw [Root.read, h, List.find?_filter]
  cases hm : mine name with
  | true =>
    rw [if_pos rfl, Root.read]
    congr 2
    funext e
    by_cases he : e.1 = name <;> simp [he, hm]
  | false =>
    rw [if_neg (by simp), Option.map_eq_none_iff, List.find?_eq_none]
    intro e _ he
    simp only [Bool.decide_and, Bool.and_eq_true, decide_eq_true_eq] at he
    rw [he.2, hm] at he
    exact absurd he.1 (by simp)

/-- To remove a file from the own part is to remove it from the directory. -/
theorem OwnPart.filter_ne {own root : Root Bytes} (h : OwnPart mine own root) (name : Str) :
    own.files.filter (fun e => e.1 ≠ name)
      = (root.files.filter fun e => e.1 ≠ name).filter fun e => mine e.1 := by
  rw [h, List.filter_filter, List.filter_filter]
  refine List.filter_congr fun e _ => ?_
  rw [Bool.and_comm]

/-- A directory of which files are taken away is divided as before. -/
theorem Mixed.filter {root : Root Bytes} (h : Mixed J K P Q U txt mine root)
    (p : Str × Bytes → Bool) {e : Str × Bytes} (he : e ∈ root.files.filter p) :
    (mine e.1 = true → ∃ s, P s ∧ e = entry J U txt s) ∧
      (mine e.1 = false → ∃ s, Q s ∧ e = entry K U txt s) :=
  h e (List.mem_of_mem_filter he)

/-- The files of the other store are of a kind that this one leaves alone. -/
theorem Mixed.decode_foreign (hK : K.Faithful Q names') (hne : K.kind ≠ J.kind)
    {root : Root Bytes} (h : Mixed J K P Q U txt mine root) {e : Str × Bytes}
    (he : e ∈ root.files) (hm : mine e.1 = false) (file : Str) :
    decodeWithKindCheck J txt file e.2 = .ok none := by
  obtain ⟨s, hs, rfl⟩ := (h e he).2 hm
  exact StateStore.decode_foreign txt hK hs hne file

/-- **A file of the other kind is no snapshot of one's own**: its `kind` says so, before its body is
looked at. -/
theorem Mixed.read_foreign (hK : K.Faithful Q names') (hne : K.kind ≠ J.kind)
    {root : Root Bytes} (h : Mixed J K P Q U txt mine root) {name : Str}
    (hm : mine name = false) {bytes : Bytes} (hread : root.read name = some bytes) :
    decodeWithKindCheck J txt name bytes = .ok none := by
  obtain ⟨e, he, rfl⟩ := Option.map_eq_some_iff.mp hread
  have hname : e.1 = name := by simpa using List.find?_some he
  exact h.decode_foreign hK hne (List.mem_of_find?_eq_some he) (hname ▸ hm) name

/-- So a store loads from the directory what it would load from its own part. -/
theorem Mixed.load (hK : K.Faithful Q names') (hne : K.kind ≠ J.kind) {own root : Root Bytes}
    (h : Mixed J K P Q U txt mine root) (hown : OwnPart mine own root) (u : Nat) :
    (fileSystem J U txt).load u own = (fileSystem J U txt).load u root := by
  simp only [fileSystem, hown.read]
  cases hm : mine (pathFor U u) with
  | true => rw [if_pos rfl]
  | false =>
    rw [if_neg (by simp)]
    cases hread : root.read (pathFor U u) with
    | none => rfl
    | some bytes => exact (h.read_foreign hK hne hm hread).symm

/-- And it lists what it would list there. -/
theorem Mixed.lists (hK : K.Faithful Q names') (hne : K.kind ≠ J.kind) {own root : Root Bytes}
    (h : Mixed J K P Q U txt mine root) (hown : OwnPart mine own root) {l : List S}
    (hl : (fileSystem J U txt).Lists root l) : (fileSystem J U txt).Lists own l := by
  obtain ⟨entries, hperm, rfl⟩ := hl
  refine ⟨entries.filter fun e => mine e.1, ?_, ?_⟩
  · rw [hown]
    exact hperm.filter _
  · rw [scan, scan, List.filterMap_filter]
    refine List.filterMap_congr fun e he => ?_
    cases hm : mine e.1 with
    | true => rw [if_pos rfl]
    | false =>
      have hforeign := h.decode_foreign hK hne (hperm.mem_iff.mp he) hm e.1
      simp only [hforeign, Bool.false_eq_true, ite_self]

/-- A step of the store itself: its own directory makes the same step. -/
theorem own_step (hJ : J.Faithful P names) (hK : K.Faithful Q names') (hne : K.kind ≠ J.kind)
    {own root root' : Root Bytes} {c : Call S} {r : Reply S}
    (hsave : ∀ s, c = .save s → P s ∧ mine (pathFor U (J.uuid s)) = true)
    (h : Mixed J K P Q U txt mine root) (hown : OwnPart mine own root)
    (hc : (fileSystem J U txt).Answers J root c r root') :
    ∃ own', (fileSystem J U txt).Answers J own c r own' ∧ OwnPart mine own' root' ∧
      Mixed J K P Q U txt mine root' := by
  cases c with
  | save s =>
    obtain ⟨rfl, rfl⟩ := hc
    obtain ⟨hs, hm⟩ := hsave s rfl
    refine ⟨_, ⟨?_, rfl⟩, ?_, ?_⟩
    · rw [save_eq U txt hJ hs, save_eq U txt hJ hs]
    · rw [save_eq U txt hJ hs, save_eq U txt hJ hs, OwnPart, Root.files_persist,
        Root.files_persist, List.filter_cons_of_pos (by exact hm), hown.filter_ne]
    · rw [save_eq U txt hJ hs]
      intro e he
      rcases List.mem_cons.mp he with rfl | he
      · refine ⟨fun _ => ⟨s, hs, rfl⟩, fun hm' => ?_⟩
        rw [hm] at hm'
        cases hm'
      · exact h.filter _ he
  | load u =>
    obtain ⟨rfl, rfl⟩ := hc
    exact ⟨own, ⟨by rw [h.load hK hne hown u], rfl⟩, hown, h⟩
  | list =>
    obtain ⟨⟨l, hl, rfl⟩, rfl⟩ := hc
    exact ⟨own, ⟨⟨l, h.lists hK hne hown hl, rfl⟩, rfl⟩, hown, h⟩
  | delete u =>
    obtain ⟨rfl, rfl⟩ := hc
    refine ⟨own.removeFile (pathFor U u), ⟨rfl, rfl⟩, ?_, ?_⟩
    · simp only [fileSystem, OwnPart, Root.files_removeFile, hown.filter_ne]
    · intro e he
      simp only [fileSystem, Root.files_removeFile] at he
      exact h.filter _ he
  | findByJobid j =>
    obtain ⟨⟨l, hl, rfl⟩, rfl⟩ := hc
    exact ⟨own, ⟨⟨l, h.lists hK hne hown hl, rfl⟩, rfl⟩, hown, h⟩
  | findAllByJobid j =>
    obtain ⟨⟨l, hl, rfl⟩, rfl⟩ := hc
    exact ⟨own, ⟨⟨l, h.lists hK hne hown hl, rfl⟩, rfl⟩, hown, h⟩

/-- A step of the other store: one's own directory stays as it is. -/
theorem other_step (hJ : J.Faithful P names) (hK : K.Faithful Q names') (hne : J.kind ≠ K.kind)
    {own root root' : Root Bytes} {c : Call S'} {r : Reply S'}
    (hsave : ∀ s, c = .save s → Q s ∧ mine (pathFor U (K.uuid s)) = false)
    (hdelete : ∀ u, c = .delete u → NotForeign U txt K root u)
    (h : Mixed J K P Q U txt mine root) (hown : OwnPart mine own root)
    (hc : (fileSystem K U txt).Answers K root c r root') :
    OwnPart mine own root' ∧ Mixed J K P Q U txt mine root' := by
  cases c with
  | save s =>
    obtain ⟨rfl, rfl⟩ := hc
    obtain ⟨hs, hm⟩ := hsave s rfl
    rw [save_eq U txt hK hs]
    constructor
    · rw [OwnPart, Root.files_persist, List.filter_cons_of_neg (by simp [hm]), ← hown.filter_ne]
      refine (List.filter_eq_self.mpr fun e he => ?_).symm
      rw [hown] at he
      have hmine : mine e.1 = true := (List.mem_filter.mp he).2
      refine decide_eq_true fun heq => ?_
      rw [heq, hm] at hmine
      cases hmine
    · intro e he
      rcases List.mem_cons.mp he with rfl | he
      · refine ⟨fun hm' => ?_, fun _ => ⟨s, hs, rfl⟩⟩
        rw [hm] at hm'
        cases hm'
      · exact h.filter _ he
  | delete u =>
    obtain ⟨rfl, rfl⟩ := hc
    constructor
    · simp only [fileSystem, OwnPart, Root.files_removeFile]
      rw [← hown.filter_ne]
      refine (List.filter_eq_self.mpr fun e he => ?_).symm
      -- a file of this name would be the one that the delete finds, and foreign to it
      refine decide_eq_true fun heq => ?_
      rw [hown] at he
      have hmine : mine (pathFor U u) = true := heq ▸ (List.mem_filter.mp he).2
      obtain ⟨f, hf⟩ : ∃ f, root.files.find? (fun e => e.1 = pathFor U u) = some f :=
        Option.isSome_iff_exists.mp
          (List.find?_isSome.mpr ⟨e, List.mem_of_mem_filter he, by simpa using heq⟩)
      have hname : f.1 = pathFor U u := by simpa using List.find?_some hf
      have hread : root.read (pathFor U u) = some f.2 := by rw [Root.read, hf, Option.map_some]
      obtain ⟨s, hs, rfl⟩ := (h f (List.mem_of_find?_eq_some hf)).1 (hname ▸ hmine)
      exact hdelete u rfl _ hread (StateStore.decode_foreign txt hJ hs hne _)
    · intro e he
      simp only [fileSystem, Root.files_removeFile] at he
      exact h.filter _ he
  | load u =>
    obtain ⟨_, rfl⟩ := hc
    exact ⟨hown, h⟩
  | list =>
    obtain ⟨_, rfl⟩ := hc
    exact ⟨hown, h⟩
  | findByJobid j =>
    obtain ⟨_, rfl⟩ := hc
    exact ⟨hown, h⟩
  | findAllByJobid j =>
    obtain ⟨_, rfl⟩ := hc
    exact ⟨hown, h⟩

/-- A run of both stores: one's own calls have these replies in a directory of one's own. -/
theorem own_run (hJ : J.Faithful P names) (hK : K.Faithful Q names') (hne : J.kind ≠ K.kind)
    {own root root' : Root Bytes} {es : List (Event S ⊕ Event S')}
    (hsave : ∀ s r, .inl (.save s, r) ∈ es → P s ∧ mine (pathFor U (J.uuid s)) = true)
    (hsave' : ∀ s r, .inr (.save s, r) ∈ es → Q s ∧ mine (pathFor U (K.uuid s)) = false)
    (h : Mixed J K P Q U txt mine root) (hown : OwnPart mine own root)
    (hrun : SharedRuns J K U txt (OwnDeletes J K U txt) root es root') :
    ∃ own', (fileSystem J U txt).Runs J own ((es.filterMap Sum.getLeft?).map Prod.fst)
      ((es.filterMap Sum.getLeft?).map Prod.snd) own' := by
  induction hrun generalizing own with
  | nil root => exact ⟨own, .nil own⟩
  | @left root root' root'' c r es hok hc _ ih =>
    obtain ⟨own', hc', hown', h'⟩ := own_step hJ hK hne.symm
      (fun s hs => hsave s r (hs ▸ List.mem_cons_self)) h hown hc
    obtain ⟨own'', hrest⟩ := ih (fun s r hs => hsave s r (List.mem_cons_of_mem _ hs))
      (fun s r hs => hsave' s r (List.mem_cons_of_mem _ hs)) h' hown'
    exact ⟨own'', .cons hc' hrest⟩
  | @right root root' root'' c r es hok hc _ ih =>
    have hdelete : ∀ u, c = .delete u → NotForeign U txt K root u := by
      rintro u rfl
      exact hok
    obtain ⟨hown', h'⟩ := other_step hJ hK hne
      (fun s hs => hsave' s r (hs ▸ List.mem_cons_self)) hdelete h hown hc
    exact ih (fun s r hs => hsave s r (List.mem_cons_of_mem _ hs))
      (fun s r hs => hsave' s r (List.mem_cons_of_mem _ hs)) h' hown'

end Own

/-! ## 3. As if alone

A step of the other store leaves one's own part as it is (`other_step`), so by induction on the run
one's own calls are a run in a directory of one's own (`own_run`). What such a run returns is
determined but for the order of the listings. -/

/-- The replies of a store are those that it would have in a directory of its own. -/
structure AsAlone (J : JobSnapshot S) (U : UuidFormat) (txt : JsonText Bytes)
    (own : List (Event S)) : Prop where
  possible : ∃ root, (fileSystem J U txt).Runs J none (own.map Prod.fst) (own.map Prod.snd) root
  same : ∀ rs root, (fileSystem J U txt).Runs J none (own.map Prod.fst) rs root →
    List.Forall₂ (Reply.Same J) (own.map Prod.snd) rs

section Both

variable {J : JobSnapshot S} {K : JobSnapshot S'} {P : S → Prop} {Q : S' → Prop}
  {names names' : List Str} {U : UuidFormat} {txt : JsonText Bytes}

open scoped Classical in
/-- The first store is answered as if it were alone; the run has calls of both. -/
theorem left_asAlone (hJ : J.Faithful P names) (hK : K.Faithful Q names') (hne : J.kind ≠ K.kind)
    {es : List (Event S ⊕ Event S')} {root : Root Bytes}
    (hsave : ∀ s r, .inl (.save s, r) ∈ es → P s) (hsave' : ∀ s r, .inr (.save s, r) ∈ es → Q s)
    (hdisjoint : ∀ s r s' r', .inl (.save s, r) ∈ es → .inr (.save s', r') ∈ es →
      J.uuid s ≠ K.uuid s')
    (hrun : SharedRuns J K U txt (OwnDeletes J K U txt) none es root) :
    AsAlone J U txt (es.filterMap Sum.getLeft?) := by
  -- one's own names are those that one saves
  let mine : Str → Bool := fun name =>
    decide (∃ s r, .inl (.save s, r) ∈ es ∧ name = pathFor U (J.uuid s))
  have hmine : ∀ s r, .inl (.save s, r) ∈ es → P s ∧ mine (pathFor U (J.uuid s)) = true :=
    fun s r hs => ⟨hsave s r hs, decide_eq_true ⟨s, r, hs, rfl⟩⟩
  have hother : ∀ s r, .inr (.save s, r) ∈ es → Q s ∧ mine (pathFor U (K.uuid s)) = false :=
    fun s' r' hs' => ⟨hsave' s' r' hs', decide_eq_false fun ⟨s, r, hs, he⟩ =>
      hdisjoint s r s' r' hs hs' (pathFor_injective U he).symm⟩
  have hmixed : Mixed J K P Q U txt mine none := by simp [Mixed]
  have hnone : OwnPart mine (none : Root Bytes) none := rfl
  obtain ⟨own, hown⟩ := own_run hJ hK hne hmine hother hmixed hnone hrun
  exact ⟨⟨own, hown⟩, fun rs root' hrs =>
    (JobStateStore.runs_same (fileSystem_unordered J U txt) hown hrs).1⟩

/-- Each of the two stores is answered as if it were alone, for the condition is the same for
both. -/
theorem both_asAlone (hJ : J.Faithful P names) (hK : K.Faithful Q names') (hne : J.kind ≠ K.kind)
    {es : List (Event S ⊕ Event S')} {root : Root Bytes}
    (hsave : ∀ s r, .inl (.save s, r) ∈ es → P s) (hsave' : ∀ s r, .inr (.save s, r) ∈ es → Q s)
    (hdisjoint : ∀ s r s' r', .inl (.save s, r) ∈ es → .inr (.save s', r') ∈ es →
      J.uuid s ≠ K.uuid s')
    (hrun : SharedRuns J K U txt (OwnDeletes J K U txt) none es root) :
    AsAlone J U txt (es.filterMap Sum.getLeft?) ∧ AsAlone K U txt (es.filterMap Sum.getRight?) := by
  refine ⟨left_asAlone hJ hK hne hsave hsave' hdisjoint hrun, ?_⟩
  have hright : (es.map Sum.swap).filterMap Sum.getLeft? = es.filterMap Sum.getRight? := by
    rw [List.filterMap_map]
    refine List.filterMap_congr fun e _ => ?_
    cases e <;> rfl
  have hmem : ∀ e, e ∈ es.map Sum.swap ↔ e.swap ∈ es := by
    intro e
    rw [List.mem_map]
    constructor
    · rintro ⟨e', he', rfl⟩
      rwa [Sum.swap_swap]
    · exact fun he => ⟨e.swap, he, Sum.swap_swap e⟩
  rw [← hright]
  exact left_asAlone hK hJ hne.symm (fun s r hs => hsave' s r ((hmem _).mp hs))
    (fun s r hs => hsave s r ((hmem _).mp hs))
    (fun s r s' r' hs hs' he => hdisjoint s' r' s r ((hmem _).mp hs') ((hmem _).mp hs) he.symm)
    hrun.swap

end Both

/-- Two stores of sbatch and tssrun snapshots in one directory that save different uuids: if no
delete meets a file of the other kind, each has the replies that it would have alone. -/
theorem coexist (U : UuidFormat) (T : TextFormat Nat) (txt : JsonText Bytes)
    {es : List (Event Sbatch.SbatchJobSnapshot ⊕ Event Tssrun.TssrunJobSnapshot)}
    {root : Root Bytes} (hsave : ∀ s r, .inl (.save s, r) ∈ es → s.Storable)
    (hsave' : ∀ s r, .inr (.save s, r) ∈ es → s.Storable)
    (hdisjoint : ∀ s r s' r', .inl (.save s, r) ∈ es → .inr (.save s', r') ∈ es →
      s.uuid ≠ s'.uuid)
    (hrun : SharedRuns (sbatch U.toTextFormat T) (tssrun U.toTextFormat) U txt
      (OwnDeletes (sbatch U.toTextFormat T) (tssrun U.toTextFormat) U txt) none es root) :
    AsAlone (sbatch U.toTextFormat T) U txt (es.filterMap Sum.getLeft?) ∧
      AsAlone (tssrun U.toTextFormat) U txt (es.filterMap Sum.getRight?) :=
  both_asAlone (sbatch_faithful U.toTextFormat T) (tssrun_faithful U.toTextFormat)
    (by change "sbatch".toList ≠ "tssrun".toList; decide) hsave hsave' hdisjoint hrun

/-- A tssrun job that has just been started. -/
def login : Tssrun.TssrunJobSnapshot :=
  ⟨3, 4242, ["tssrun", "bash"], [], none, 1778500000, .none, none, none, none⟩

/-- The snapshot of the other manager can be stored. -/
theorem login_storable : login.Storable where
  startedAtUnix := by decide
  finished f h := by simp [login] at h
  sentEnv := by decide

section Documents

variable (U : UuidFormat) (txt : JsonText Bytes)

/-- What is persisted can be read. -/
theorem read_persist (root : Root Bytes) (name : Str) (bytes : Bytes) :
    (root.persist name bytes).read name = some bytes := by
  simp [Root.read]

/-- The snapshot is loaded from where it was written. -/
theorem load_login (root : Root Bytes) : (fileSystem (tssrun U.toTextFormat) U txt).load 3
    (root.persist (pathFor U 3) (written (tssrun U.toTextFormat) txt login))
      = .ok (some login) := by
  simp only [fileSystem, read_persist]
  exact decode_written txt (tssrun_faithful U.toTextFormat) login_storable _

end Documents

/-- The first store deletes its snapshot again, and the second one still loads its own. -/
theorem coexist_waiting_login :
    AsAlone (sbatch UuidFormat.hyphenated.toTextFormat epoch) .hyphenated .documents
      [(.save waiting, .done (.ok ())), (.delete 7, .done (.ok ()))] ∧
    AsAlone (tssrun UuidFormat.hyphenated.toTextFormat) .hyphenated .documents
      [(.save login, .done (.ok ())), (.load 3, .loaded (.ok (some login)))] := by
  have hrun : ∃ root, SharedRuns (sbatch UuidFormat.hyphenated.toTextFormat epoch)
      (tssrun UuidFormat.hyphenated.toTextFormat) .hyphenated .documents
      (OwnDeletes (sbatch UuidFormat.hyphenated.toTextFormat epoch)
        (tssrun UuidFormat.hyphenated.toTextFormat) .hyphenated .documents) none
      [.inl (.save waiting, .done (.ok ())), .inl (.delete 7, .done (.ok ())),
        .inr (.save login, .done (.ok ())), .inr (.load 3, .loaded (.ok (some login)))] root := by
    refine ⟨_, .left trivial ⟨rfl, rfl⟩ <| .left ?_ ⟨rfl, rfl⟩ <| .right trivial ⟨rfl, rfl⟩ <|
      .right trivial ⟨?_, rfl⟩ <| .nil _⟩
    · intro bytes hread
      rw [save_eq .hyphenated .documents (sbatch_faithful _ epoch) waiting_storable] at hread
      obtain rfl : written (sbatch UuidFormat.hyphenated.toTextFormat epoch) .documents waiting
          = bytes := Option.some.inj ((read_persist none _ _).symm.trans hread)
      rw [decode_written .documents (sbatch_faithful _ epoch) waiting_storable]
      nofun
    · rw [save_eq .hyphenated .documents (tssrun_faithful _) login_storable]
      exact congrArg Reply.loaded (load_login .hyphenated .documents _).symm
  obtain ⟨root, hrun⟩ := hrun
  refine coexist .hyphenated epoch .documents ?_ ?_ ?_ hrun
  · intro s r hs
    obtain ⟨rfl, rfl⟩ : s = waiting ∧ r = .done (.ok ()) := by simpa using hs
    exact waiting_storable
  · intro s r hs
    obtain ⟨rfl, rfl⟩ : s = login ∧ r = .done (.ok ()) := by simpa using hs
    exact login_storable
  · intro s r s' r' hs hs'
    obtain ⟨rfl, rfl⟩ : s = waiting ∧ r = .done (.ok ()) := by simpa using hs
    obtain ⟨rfl, rfl⟩ : s' = login ∧ r' = .done (.ok ()) := by simpa using hs'
    decide

/-- The sbatch store is asked to delete the uuid of a tssrun job, and the tssrun store no longer
finds the job: alone it would. -/
theorem delete_takes_foreign_file :
    (∃ root, SharedRuns (sbatch UuidFormat.hyphenated.toTextFormat epoch)
      (tssrun UuidFormat.hyphenated.toTextFormat) .hyphenated .documents (fun _ _ => True) none
      [.inr (.save login, .done (.ok ())), .inl (.delete 3, .done (.ok ())),
        .inr (.load 3, .loaded (.ok none))] root) ∧
    login.Storable ∧
    ¬ AsAlone (tssrun UuidFormat.hyphenated.toTextFormat) .hyphenated .documents
      [(.save login, .done (.ok ())), (.load 3, .loaded (.ok none))] := by
  refine ⟨⟨_, .right trivial ⟨rfl, rfl⟩ <| .left trivial ⟨rfl, rfl⟩ <|
    .right trivial ⟨?_, rfl⟩ <| .nil _⟩, login_storable, ?_⟩
  · rw [save_eq .hyphenated .documents (tssrun_faithful _) login_storable]
    simp [fileSystem, Root.persist, Root.removeFile, Root.read, Root.files, tssrun, login]
  · rintro ⟨⟨root, hrun⟩, _⟩
    cases hrun with
    | cons hsave hrest =>
      cases hrest with
      | cons hload _ =>
        obtain ⟨_, rfl⟩ := hsave
        rw [save_eq .hyphenated .documents (tssrun_faithful _) login_storable] at hload
        have hreply :=
          hload.1.trans (congrArg Reply.loaded (load_login .hyphenated .documents none))
        cases hreply

end StateStore

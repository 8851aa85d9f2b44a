/-
# State stores

The trait of the state stores with its default methods, the runs of calls on a store, and the
in-memory store.  A scan lists what is stored in no particular order, that of a directory or of a
hash map, so that a call may have several results.

Two stores whose states can be matched up have the same runs (`Simulation.runs_iff`).
-/
import SlurmRunner.Serde.Reader

namespace StateStore

open Text Serde

/-! ## 1. Snapshots and stores

The trait of the source, over any type of snapshots with a uuid and a job id. -/

/-- `JobSnapshot`: a type of snapshots with its JSON form. -/
structure JobSnapshot (S : Type) where
  uuid : S → Nat
  jobid : S → Option UInt64
  /-- The `kind` field of a file. -/
  kind : Str
  /-- `serde_json::to_value`. -/
  toValue : S → Json
  /-- `serde_json::from_value`. -/
  fromValue : Reader S

inductive StoreError where
  /-- The file is not JSON. -/
  | decode (file : Str)
  /-- The version is not the one that this build supports. -/
  | unsupportedSchema (version : Json) (file : Str)
  /-- The file is not a snapshot. -/
  | decodeBody (file : Str)
  /-- A snapshot did not serialize to an object. -/
  | notAnObject

variable {S : Type}

/-- The methods that a store with states in `σ` implements. -/
structure JobStateStore (S σ : Type) where
  /-- Nothing has been saved. -/
  fresh : σ
  save : S → σ → Except StoreError Unit × σ
  load : Nat → σ → Except StoreError (Option S)
  /-- The possible results of `list`. -/
  Lists : σ → List S → Prop
  delete : Nat → σ → Except StoreError Unit × σ

inductive Call (S : Type) where
  | save (snap : S)
  | load (u : Nat)
  | list
  | delete (u : Nat)
  | findByJobid (j : UInt64)
  | findAllByJobid (j : UInt64)

inductive Reply (S : Type) where
  | done (r : Except StoreError Unit)
  | loaded (r : Except StoreError (Option S))
  | listed (snaps : List S)
  | found (snap : Option S)

/-- `find_by_jobid` on a list: the first match. -/
def firstByJobid (J : JobSnapshot S) (j : UInt64) (snaps : List S) : Option S :=
  snaps.find? fun s => J.jobid s = some j

/-- `find_all_by_jobid` on a list. -/
def allByJobid (J : JobSnapshot S) (j : UInt64) (snaps : List S) : List S :=
  snaps.filter fun s => J.jobid s = some j

namespace JobStateStore

variable {σ : Type} (J : JobSnapshot S) (A : JobStateStore S σ)

/-- A call may have this reply and leave this state. -/
def Answers (a : σ) : Call S → Reply S → σ → Prop
  | .save snap, r, a' => r = .done (A.save snap a).1 ∧ a' = (A.save snap a).2
  | .load u, r, a' => r = .loaded (A.load u a) ∧ a' = a
  | .list, r, a' => (∃ l, A.Lists a l ∧ r = .listed l) ∧ a' = a
  | .delete u, r, a' => r = .done (A.delete u a).1 ∧ a' = (A.delete u a).2
  | .findByJobid j, r, a' => (∃ l, A.Lists a l ∧ r = .found (firstByJobid J j l)) ∧ a' = a
  | .findAllByJobid j, r, a' => (∃ l, A.Lists a l ∧ r = .listed (allByJobid J j l)) ∧ a' = a

/-- The calls may have these replies, one after another. -/
inductive Runs : σ → List (Call S) → List (Reply S) → σ → Prop
  | nil (a : σ) : Runs a [] [] a
  | cons {a a' a'' : σ} {c : Call S} {r : Reply S} {cs : List (Call S)}
      {rs : List (Reply S)} : A.Answers J a c r a' → Runs a' cs rs a'' →
      Runs a (c :: cs) (r :: rs) a''

end JobStateStore

/-! ## 2. The in-memory store

A map from uuids to snapshots; what it lists may come in any order. -/

/-- `InMemoryStateStore`: the values of the map, which are keyed by their uuids. -/
def inMemory (J : JobSnapshot S) : JobStateStore S (List S) where
  fresh := []
  save snap m := (.ok (), snap :: m.filter fun s => J.uuid s ≠ J.uuid snap)
  load u m := .ok (m.find? fun s => J.uuid s = u)
  Lists m l := l.Perm m
  delete u m := (.ok (), m.filter fun s => J.uuid s ≠ u)

/-! ## 3. Replies up to order

A scan lists the same snapshots in some order, so replies are compared up to that, and a search by
job id returns one of those that have it. -/

/-- The same reply, but for the order of a list: of several matches `find_by_jobid` may return
any. -/
def Reply.Same (J : JobSnapshot S) : Reply S → Reply S → Prop
  | .done r, .done r' => r = r'
  | .loaded r, .loaded r' => r = r'
  | .listed l, .listed l' => l.Perm l'
  | .found o, .found o' => o.map J.jobid = o'.map J.jobid
  | _, _ => False

/-- Whether something is found does not depend on the order. -/
theorem map_jobid_firstByJobid (J : JobSnapshot S) (j : UInt64) (l : List S) :
    (firstByJobid J j l).map J.jobid =
      if ∃ s ∈ l, J.jobid s = some j then some (some j) else none := by
  unfold firstByJobid
  cases h : l.find? (fun s => J.jobid s = some j) with
  | none =>
    rw [if_neg, Option.map_none]
    rintro ⟨s, hs, hj⟩
    exact absurd hj (by simpa using List.find?_eq_none.mp h s hs)
  | some s =>
    have hj : J.jobid s = some j := by simpa using List.find?_some h
    rw [if_pos ⟨s, List.mem_of_find?_eq_some h, hj⟩, Option.map_some, hj]

/-- Whether there is a match does not depend on the order. -/
theorem map_jobid_firstByJobid_perm (J : JobSnapshot S) (j : UInt64) {l l' : List S}
    (h : l.Perm l') : (firstByJobid J j l).map J.jobid = (firstByJobid J j l').map J.jobid := by
  simp only [map_jobid_firstByJobid, h.mem_iff]

section Unordered

variable {σ : Type} {J : JobSnapshot S} {A : JobStateStore S σ}

/-- The results of a scan differ in their order only. -/
def JobStateStore.Unordered (A : JobStateStore S σ) : Prop :=
  ∀ a l l', A.Lists a l → A.Lists a l' → l.Perm l'

/-- Two answers to one call are the same up to the order. -/
theorem JobStateStore.answers_same (hA : A.Unordered) {a a₁ a₂ : σ} {c : Call S}
    {r₁ r₂ : Reply S} (h₁ : A.Answers J a c r₁ a₁) (h₂ : A.Answers J a c r₂ a₂) :
    r₁.Same J r₂ ∧ a₁ = a₂ := by
  cases c with
  | save snap =>
    obtain ⟨⟨rfl, rfl⟩, rfl, rfl⟩ := And.intro h₁ h₂
    exact ⟨rfl, rfl⟩
  | load u =>
    obtain ⟨⟨rfl, rfl⟩, rfl, rfl⟩ := And.intro h₁ h₂
    exact ⟨rfl, rfl⟩
  | list =>
    obtain ⟨⟨⟨l, hl, rfl⟩, rfl⟩, ⟨l', hl', rfl⟩, rfl⟩ := And.intro h₁ h₂
    exact ⟨hA a₂ l l' hl hl', rfl⟩
  | delete u =>
    obtain ⟨⟨rfl, rfl⟩, rfl, rfl⟩ := And.intro h₁ h₂
    exact ⟨rfl, rfl⟩
  | findByJobid j =>
    obtain ⟨⟨⟨l, hl, rfl⟩, rfl⟩, ⟨l', hl', rfl⟩, rfl⟩ := And.intro h₁ h₂
    exact ⟨map_jobid_firstByJobid_perm J j (hA a₂ l l' hl hl'), rfl⟩
  | findAllByJobid j =>
    obtain ⟨⟨⟨l, hl, rfl⟩, rfl⟩, ⟨l', hl', rfl⟩, rfl⟩ := And.intro h₁ h₂
    exact ⟨(hA a₂ l l' hl hl').filter _, rfl⟩

/-- Two runs of the same calls have the same replies, up to order, and end in the same state. -/
theorem JobStateStore.runs_same (hA : A.Unordered) {a a₁ a₂ : σ} {cs : List (Call S)}
    {rs₁ rs₂ : List (Reply S)} (h₁ : A.Runs J a cs rs₁ a₁) (h₂ : A.Runs J a cs rs₂ a₂) :
    List.Forall₂ (Reply.Same J) rs₁ rs₂ ∧ a₁ = a₂ := by
  induction h₁ generalizing rs₂ with
  | nil a =>
    cases h₂
    exact ⟨.nil, rfl⟩
  | cons hc _ ih =>
    cases h₂ with
    | cons hc' hrest =>
      obtain ⟨hsame, rfl⟩ := JobStateStore.answers_same hA hc hc'
      obtain ⟨hall, hstate⟩ := ih hrest
      exact ⟨.cons hsame hall, hstate⟩

/-- The in-memory store does not fix the order. -/
theorem inMemory_unordered (J : JobSnapshot S) : (inMemory J).Unordered :=
  fun _ _ _ hl hl' => hl.trans hl'.symm

end Unordered

/-! ## 4. Simulation

Two stores, with a relation between what they hold that every call keeps. -/

section Simulation

variable {σ τ : Type} {J : JobSnapshot S} {A : JobStateStore S σ} {B : JobStateStore S τ}

/-- Every operation keeps two matching states matching, and has the same result on both, as long
as what is saved satisfies `P`. -/
structure Simulation (P : S → Prop) (A : JobStateStore S σ) (B : JobStateStore S τ)
    (R : σ → τ → Prop) : Prop where
  fresh : R A.fresh B.fresh
  save : ∀ {a b snap}, P snap → R a b →
    (A.save snap a).1 = (B.save snap b).1 ∧ R (A.save snap a).2 (B.save snap b).2
  load : ∀ {a b}, R a b → ∀ u, A.load u a = B.load u b
  lists : ∀ {a b}, R a b → ∀ l, A.Lists a l ↔ B.Lists b l
  delete : ∀ {a b}, R a b → ∀ u,
    (A.delete u a).1 = (B.delete u b).1 ∧ R (A.delete u a).2 (B.delete u b).2

variable {P : S → Prop} {R : σ → τ → Prop}

/-- It can be read the other way. -/
theorem Simulation.symm (h : Simulation P A B R) : Simulation P B A fun b a => R a b where
  fresh := h.fresh
  save hP hR := ⟨(h.save hP hR).1.symm, (h.save hP hR).2⟩
  load hR u := (h.load hR u).symm
  lists hR l := (h.lists hR l).symm
  delete hR u := ⟨(h.delete hR u).1.symm, (h.delete hR u).2⟩

/-- **Each call has the same reply on both.** -/
theorem Simulation.answers (h : Simulation P A B R) {a a' : σ} {b : τ} {c : Call S}
    {r : Reply S} (hP : ∀ snap, c = .save snap → P snap) (hR : R a b)
    (hc : A.Answers J a c r a') : ∃ b', B.Answers J b c r b' ∧ R a' b' := by
  cases c with
  | save snap =>
    obtain ⟨rfl, rfl⟩ := hc
    obtain ⟨hres, hstate⟩ := h.save (hP snap rfl) hR
    exact ⟨_, ⟨by rw [hres], rfl⟩, hstate⟩
  | load u =>
    obtain ⟨rfl, rfl⟩ := hc
    exact ⟨b, ⟨by rw [h.load hR u], rfl⟩, hR⟩
  | list =>
    obtain ⟨⟨l, hl, rfl⟩, rfl⟩ := hc
    exact ⟨b, ⟨⟨l, (h.lists hR l).mp hl, rfl⟩, rfl⟩, hR⟩
  | delete u =>
    obtain ⟨rfl, rfl⟩ := hc
    obtain ⟨hres, hstate⟩ := h.delete hR u
    exact ⟨_, ⟨by rw [hres], rfl⟩, hstate⟩
  | findByJobid j =>
    obtain ⟨⟨l, hl, rfl⟩, rfl⟩ := hc
    exact ⟨b, ⟨⟨l, (h.lists hR l).mp hl, rfl⟩, rfl⟩, hR⟩
  | findAllByJobid j =>
    obtain ⟨⟨l, hl, rfl⟩, rfl⟩ := hc
    exact ⟨b, ⟨⟨l, (h.lists hR l).mp hl, rfl⟩, rfl⟩, hR⟩

/-- And so has every run. -/
theorem Simulation.runs (h : Simulation P A B R) {a a' : σ} {b : τ}
    {cs : List (Call S)} {rs : List (Reply S)} (hP : ∀ snap, Call.save snap ∈ cs → P snap)
    (hR : R a b) (hrun : A.Runs J a cs rs a') : ∃ b', B.Runs J b cs rs b' ∧ R a' b' := by
  induction hrun generalizing b with
  | nil a => exact ⟨b, .nil b, hR⟩
  | cons hc _ ih =>
    obtain ⟨b', hb', hR'⟩ :=
      h.answers (fun snap hs => hP snap (hs ▸ List.mem_cons_self)) hR hc
    obtain ⟨b'', hb'', hR''⟩ := ih (fun snap hs => hP snap (List.mem_cons_of_mem _ hs)) hR'
    exact ⟨b'', .cons hb' hb'', hR''⟩

/-- The two stores have the same runs. -/
theorem Simulation.runs_iff (h : Simulation P A B R) {cs : List (Call S)} {rs : List (Reply S)}
    (hP : ∀ snap, Call.save snap ∈ cs → P snap) :
    (∃ a', A.Runs J A.fresh cs rs a') ↔ ∃ b', B.Runs J B.fresh cs rs b' := by
  constructor
  · rintro ⟨a', ha⟩
    obtain ⟨b', hb, _⟩ := h.runs hP h.fresh ha
    exact ⟨b', hb⟩
  · rintro ⟨b', hb⟩
    obtain ⟨a', ha, _⟩ := h.symm.runs hP h.fresh hb
    exact ⟨a', ha⟩

/-- A store has the runs of the in-memory store, and thereby its results. -/
structure Refines (J : JobSnapshot S) (P : S → Prop) (A : JobStateStore S σ) : Prop where
  /-- The replies that the calls may have are those of the in-memory store. -/
  runs : ∀ cs : List (Call S), (∀ snap, Call.save snap ∈ cs → P snap) → ∀ rs,
    (∃ a, A.Runs J A.fresh cs rs a) ↔ ∃ m, (inMemory J).Runs J [] cs rs m
  /-- Call by call, both stores reply the same, up to order. -/
  same : ∀ cs : List (Call S), (∀ snap, Call.save snap ∈ cs → P snap) → ∀ rs rs' a m,
    A.Runs J A.fresh cs rs a → (inMemory J).Runs J [] cs rs' m → List.Forall₂ (Reply.Same J) rs rs'
  /-- `find_by_jobid` returns one of the stored snapshots that match if there is any. -/
  found : ∀ cs : List (Call S), (∀ snap, Call.save snap ∈ cs → P snap) → ∀ rs rs' a m,
    A.Runs J A.fresh cs rs a → (inMemory J).Runs J [] cs rs' m →
      ∀ j r a', A.Answers J a (.findByJobid j) r a' → ∃ o, r = .found o ∧
        (o.isSome ↔ ∃ s ∈ m, J.jobid s = some j) ∧ ∀ s ∈ o, s ∈ m ∧ J.jobid s = some j

/-- So a store that simulates the map refines it. -/
theorem Simulation.refines {R : σ → List S → Prop} (h : Simulation P A (inMemory J) R) :
    Refines J P A where
  runs _ hP _ := h.runs_iff hP
  same cs hP rs rs' a m ha hm := by
    obtain ⟨m', hm', _⟩ := h.runs hP h.fresh ha
    exact (JobStateStore.runs_same (inMemory_unordered J) hm' hm).1
  found cs hP rs rs' a m ha hm j r a' hr := by
    obtain ⟨m', hm', hR⟩ := h.runs hP h.fresh ha
    obtain ⟨_, rfl⟩ := JobStateStore.runs_same (inMemory_unordered J) hm' hm
    obtain ⟨⟨l, hl, rfl⟩, rfl⟩ := hr
    have hperm : l.Perm m' := (h.lists hR l).mp hl
    refine ⟨_, rfl, ?_, ?_⟩
    · simp [firstByJobid, List.find?_isSome, hperm.mem_iff]
    · intro s hs
      exact ⟨hperm.mem_iff.mp (List.mem_of_find?_eq_some hs), by simpa using List.find?_some hs⟩

end Simulation

end StateStore

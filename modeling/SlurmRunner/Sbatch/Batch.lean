/-
# What a live query asks for

The batch of a live query is the keys of its call and the keys that some call asked for less than
twice the `ttl` before, and nothing else.  The slot forgets a key only when it makes a batch, so
the invariant relates its registry to the whole history.
-/
import SlurmRunner.Sbatch.Ledger

namespace Sbatch

open Text Slurm Interact

/-! ## 1. The registry -/

section Registry

variable {κ : Type} [LinearOrder κ]

theorem mem_stampRecent {recent : List (κ × Nat)} {requested : List κ} {now : Nat} {x : κ × Nat} :
    x ∈ stampRecent recent requested now ↔
      x.1 ∈ requested ∧ x.2 = now ∨ x.1 ∉ requested ∧ x ∈ recent := by
  unfold stampRecent
  induction requested generalizing recent with
  | nil => simp
  | cons k ks ih =>
    obtain ⟨y, a⟩ := x
    rw [List.foldl_cons, ih]
    by_cases hk : y = k
    · subst hk
      by_cases hks : y ∈ ks <;> simp [hks]
    · simp [hk]

omit [LinearOrder κ] in
theorem mem_retainRecent {recent : List (κ × Nat)} {window now : Nat} {x : κ × Nat} :
    x ∈ retainRecent recent window now ↔ x ∈ recent ∧ now - x.2 < window := by
  simp [retainRecent]

theorem isChain_lt_of_ne : ∀ {l : List κ}, l.Pairwise (· ≤ ·) → l.IsChain (· ≠ ·) →
    l.IsChain (· < ·)
  | [], _, _ => .nil
  | [a], _, _ => .singleton a
  | a :: b :: l, hle, hne => by
    rw [List.isChain_cons_cons] at hne ⊢
    rw [List.pairwise_cons] at hle
    exact ⟨lt_of_le_of_ne (hle.1 b List.mem_cons_self) hne.1, isChain_lt_of_ne hle.2 hne.2⟩

/-- A batch is strictly increasing. -/
theorem pairwise_batchOf (recent : List (κ × Nat)) (requested : List κ) :
    (batchOf recent requested).Pairwise (· < ·) := by
  have hle : (batchOf recent requested).Pairwise (· ≤ ·) :=
    (List.pairwise_insertionSort (· ≤ ·) (recent.map Prod.fst ++ requested)).sublist
      (List.destutter_sublist ..)
  exact List.isChain_iff_pairwise.mp (isChain_lt_of_ne hle (List.isChain_destutter ..))

end Registry

/-! ## 2. Exact batches -/

section Exact

variable {κ : Type}

/-- Some call asked for `k` less than twice the `ttl` before `now`; an elapsed time is a
`Duration`. -/
def AskedWithin (ttl : Nat) (k : κ) (now : Nat) (log : List (Event κ)) : Prop :=
  ∃ t keys askedAt, .asked t keys askedAt ∈ log ∧ k ∈ keys ∧ now - askedAt < ttl * 2 ∧
    now - askedAt < Duration.max

variable [LinearOrder κ]

/-- The batch of a call that asks for `keys` at `now`, after the history `earlier`. -/
structure ExactBatch (ttl : Nat) (keys : List κ) (now : Nat) (earlier : List (Event κ))
    (batch : List κ) : Prop where
  sorted : batch.Pairwise (· < ·)
  mem : ∀ k, k ∈ batch ↔ k ∈ keys ∨ AskedWithin ttl k now earlier

/-- What the history says of a live query and of the entry that it stores: the query is its call's,
with the exact batch, and the entry lists that batch. -/
def Exact (shape : QueryShape κ) (ttl : Nat) : Event κ → List (Event κ) → Prop
  | .asked _ _ _, _ => True
  | .sent t argv sentAt, earlier => ∃ keys before batch, earlier = .asked t keys sentAt :: before ∧
      argv = shape.build batch ∧ ExactBatch ttl keys sentAt before batch
  | .filled t e, earlier => ∃ keys sentAt before,
      earlier = .sent t (shape.build e.keys) sentAt :: .asked t keys sentAt :: before ∧
      ExactBatch ttl keys sentAt before e.keys

/-- A call that asks is live: its query comes next. -/
def AllLive (e : Event κ) (earlier : List (Event κ)) : Prop :=
  ∀ t keys askedAt before, earlier = .asked t keys askedAt :: before →
    ∃ argv, e = .sent t argv askedAt

/-- The exact batch is the sorted set of the requested keys when the `ttl` is zero. -/
theorem ExactBatch.zero {keys batch : List κ} {now : Nat} {earlier : List (Event κ)}
    (h : ExactBatch 0 keys now earlier batch) (k : κ) : k ∈ batch ↔ k ∈ keys := by
  rw [h.mem]
  refine or_iff_left ?_
  rintro ⟨t, keys, askedAt, -, -, hlt, -⟩
  exact absurd hlt (by simp)

end Exact

/-! ## 3. The registry and the history -/

namespace Ledger

variable {κ : Type} [LinearOrder κ] {shape : QueryShape κ} {ttl : Nat} {cancels : Prop}
  {s s' : Ledger κ}

/-- The registry has the calls of the history, but for those that no batch can need any more. -/
structure Registered (ttl : Nat) (s : Ledger κ) : Prop where
  past : ∀ t keys a, .asked t keys a ∈ s.log → a ≤ s.instant
  sound : ∀ k a, (k, a) ∈ s.slot.recent → ∃ t keys, .asked t keys a ∈ s.log ∧ k ∈ keys
  complete : ∀ t keys a, .asked t keys a ∈ s.log → ∀ k ∈ keys,
    (∃ b, a ≤ b ∧ (k, b) ∈ s.slot.recent) ∨ Duration.saturatingMul ttl 2 ≤ s.instant - a

/-- The batch that a live query makes is exact. -/
theorem Registered.exactBatch (h : Registered ttl s) (keys : List κ) :
    ExactBatch ttl keys s.instant s.log (batchOf (s.registry ttl keys) keys) := by
  refine ⟨pairwise_batchOf _ _, fun k => ?_⟩
  have hwindow : ∀ d, d < Duration.saturatingMul ttl 2 ↔ d < ttl * 2 ∧ d < Duration.max :=
    fun d => Nat.lt_min
  rw [mem_batchOf]
  constructor
  · rintro (hk | hk)
    · obtain ⟨⟨k, b⟩, hx, rfl⟩ := List.mem_map.mp hk
      rw [registry, mem_retainRecent, mem_stampRecent] at hx
      obtain ⟨⟨hk, -⟩ | ⟨-, hx⟩, hlt⟩ := hx
      · exact .inl hk
      · obtain ⟨t, keys', hlog, hk⟩ := h.sound k b hx
        exact .inr ⟨t, keys', b, hlog, hk, (hwindow _).mp hlt⟩
    · exact .inl hk
  · rintro (hk | ⟨t, keys', a, hlog, hk, hlt⟩)
    · exact .inr hk
    · by_cases hreq : k ∈ keys
      · exact .inr hreq
      · rcases h.complete t keys' a hlog k hk with ⟨b, hab, hx⟩ | hold
        · refine .inl (List.mem_map.mpr ⟨(k, b), ?_, rfl⟩)
          rw [registry, mem_retainRecent, mem_stampRecent]
          exact ⟨.inr ⟨hreq, hx⟩, lt_of_le_of_lt (Nat.sub_le_sub_left hab _) ((hwindow _).mpr hlt)⟩
        · exact absurd ((hwindow _).mpr hlt) (Nat.not_lt.mpr hold)

/-- A call stamps its keys. -/
theorem Registered.asked (h : Registered ttl s) {t : Nat} {keys : List κ} :
    Registered ttl { s with
      slot := { s.slot with recent := stampRecent s.slot.recent keys s.instant }
      log := .asked t keys s.instant :: s.log } := by
  refine ⟨fun u keys' a ha => ?_, fun k a hx => ?_, fun u keys' a ha k hk => ?_⟩
  · rcases List.mem_cons.mp ha with he | ha
    · cases he
      exact le_rfl
    · exact h.past u keys' a ha
  · obtain ⟨hk, rfl⟩ | ⟨-, hx⟩ := mem_stampRecent.mp hx
    · exact ⟨t, keys, List.mem_cons_self, hk⟩
    · obtain ⟨u, keys', hlog, hk⟩ := h.sound k a hx
      exact ⟨u, keys', List.mem_cons_of_mem _ hlog, hk⟩
  · by_cases hreq : k ∈ keys
    · refine .inl ⟨s.instant, ?_, mem_stampRecent.mpr (.inl ⟨hreq, rfl⟩)⟩
      rcases List.mem_cons.mp ha with he | ha
      · cases he
        exact le_rfl
      · exact h.past u keys' a ha
    · rcases List.mem_cons.mp ha with he | ha
      · cases he
        exact absurd hk hreq
      · refine (h.complete u keys' a ha k hk).imp_left ?_
        rintro ⟨b, hab, hx⟩
        exact ⟨b, hab, mem_stampRecent.mpr (.inr ⟨hreq, hx⟩)⟩

omit [LinearOrder κ] in
/-- A live query forgets the keys that no batch can need any more. -/
theorem Registered.retain (h : Registered ttl s) :
    Registered ttl { s with slot := { s.slot with
      recent := retainRecent s.slot.recent (Duration.saturatingMul ttl 2) s.instant } } := by
  refine ⟨h.past, fun k a hx => h.sound k a (mem_retainRecent.mp hx).1, fun t keys a ha k hk => ?_⟩
  rcases h.complete t keys a ha k hk with ⟨b, hab, hx⟩ | hold
  · by_cases hlt : s.instant - b < Duration.saturatingMul ttl 2
    · exact .inl ⟨b, hab, mem_retainRecent.mpr ⟨hx, hlt⟩⟩
    · exact .inr ((Nat.not_lt.mp hlt).trans (Nat.sub_le_sub_left hab _))
  · exact .inr hold

omit [LinearOrder κ] in
/-- Only the registry and the asked keys matter. -/
theorem Registered.congr (h : Registered ttl s) (hinstant : s.instant ≤ s'.instant)
    (hrecent : s'.slot.recent = s.slot.recent)
    (hlog : ∀ t keys a, .asked t keys a ∈ s'.log ↔ .asked t keys a ∈ s.log) :
    Registered ttl s' := by
  refine ⟨fun t keys a ha => (h.past t keys a ((hlog _ _ _).mp ha)).trans hinstant,
    fun k a hx => ?_, fun t keys a ha k hk => ?_⟩
  · obtain ⟨t, keys, ha, hk⟩ := h.sound k a (hrecent ▸ hx)
    exact ⟨t, keys, (hlog _ _ _).mpr ha, hk⟩
  · rw [hrecent]
    exact (h.complete t keys a ((hlog _ _ _).mp ha) k hk).imp_right
      fun hold => hold.trans (Nat.sub_le_sub_right hinstant a)

theorem Registered.step (h : Registered ttl s) (hs : Step shape ttl cancels s s') :
    Registered ttl s' := by
  cases hs with
  | replayed => exact h.asked
  | @live t => exact (h.asked (t := t)).retain.congr le_rfl rfl (by simp)
  | filled => exact h.congr le_rfl rfl (by simp)
  | dropped => exact h.congr le_rfl rfl fun _ _ _ => .rfl
  | elapsed d => exact h.congr (Nat.le_add_right ..) rfl fun _ _ _ => .rfl

/-! ## 4. Every history is exact -/

/-- The history of a ledger, with the live call at its head. -/
structure History (shape : QueryShape κ) (ttl : Nat) (s : Ledger κ) : Prop where
  registered : Registered ttl s
  always : Always (Exact shape ttl) s.log
  live : ∀ t batch, s.busy = some (t, batch) → ∃ keys sentAt before,
    s.log = .sent t (shape.build batch) sentAt :: .asked t keys sentAt :: before ∧
      ExactBatch ttl keys sentAt before batch

theorem History.start : History shape ttl (start κ) :=
  ⟨⟨fun _ _ _ h => (by cases h), fun _ _ h => (by cases h), fun _ _ _ h => (by cases h)⟩, .nil,
    fun _ _ h => (by cases h)⟩

theorem History.step (h : History shape ttl s) (hs : Step shape ttl cancels s s') :
    History shape ttl s' := by
  refine ⟨h.registered.step hs, ?_, ?_⟩
  · cases hs with
    | replayed => exact .cons trivial h.always
    | @live t argv keys =>
      have hexact := h.registered.exactBatch keys
      exact .cons ⟨keys, s.log, _, rfl, rfl, hexact⟩ (.cons trivial h.always)
    | @filled t batch r hbusy =>
      obtain ⟨keys, sentAt, before, hlog, hexact⟩ := h.live t batch hbusy
      exact .cons ⟨keys, sentAt, before, hlog, hexact⟩ h.always
    | dropped | elapsed => exact h.always
  · cases hs with
    | replayed _ hfree => exact fun t batch hb => absurd (hfree.symm.trans hb) (by simp)
    | @live t argv keys =>
      intro u batch hb
      cases hb
      exact ⟨keys, s.instant, s.log, rfl, h.registered.exactBatch keys⟩
    | filled | dropped => exact fun _ _ hb => by cases hb
    | elapsed => exact h.live

theorem Reach.history (h : Reach shape ttl cancels s) : History shape ttl s := by
  induction h with
  | refl => exact .start
  | tail _ hs ih => exact ih.step hs

/-- Nothing is replayed when the `ttl` is zero. -/
theorem Reach.allLive (h : Reach shape 0 cancels s) :
    Always AllLive s.log ∧ ∀ t keys askedAt before, s.log ≠ .asked t keys askedAt :: before := by
  induction h with
  | refl => exact ⟨.nil, fun _ _ _ _ h => by cases h⟩
  | @tail s₁ s₂ _ hs ih =>
    obtain ⟨halways, hhead⟩ := ih
    have hnot : ∀ e, AllLive e s₁.log := fun e t keys a before h => absurd h (hhead t keys a before)
    cases hs with
    | replayed _ _ he => exact absurd he (by simp [replayable])
    | @live t argv keys =>
      refine ⟨.cons (fun u keys' a before hb => ?_) (.cons (hnot _) halways),
        fun _ _ _ _ h => by cases h⟩
      cases hb
      exact ⟨_, rfl⟩
    | filled => exact ⟨.cons (hnot _) halways, fun _ _ _ _ h => by cases h⟩
    | dropped | elapsed => exact ⟨halways, hhead⟩

end Ledger

/-- **Batch exactness**: in every history of the clients of a cache, replayed, live and cancelled,
each live query asks for exactly the keys of its call and of the calls less than twice the `ttl`
before, and the entry that it stores lists that batch.  When the `ttl` is zero every call makes a
query, for its own keys. -/
theorem batch_exact {κ : Type} [LinearOrder κ] {shape : QueryShape κ} {ttl : Nat}
    {clients : Nat → Option (List Argv)} {ms : List (Move (machine (Solo κ)))} {uuids : Supply Nat}
    {utc : Nat}
    {c : Config (machine (Solo κ)) Unit}
    (hr : (clientsOf shape ttl clients uuids utc).run ms = some c) :
    Always (Exact shape ttl) ((clientsOf shape ttl clients uuids utc).notes (observer κ) ms) ∧
      (ttl = 0 → Always AllLive ((clientsOf shape ttl clients uuids utc).notes (observer κ) ms) ∧
        ∀ t keys askedAt before, (clientsOf shape ttl clients uuids utc).notes (observer κ) ms ≠
          .asked t keys askedAt :: before) := by
  obtain ⟨s, hreach, -, hlog⟩ := captures_ledger (fun _ => trivial) hr
  rw [← hlog]
  refine ⟨hreach.history.always, ?_⟩
  rintro rfl
  exact hreach.allLive

/-! ### A cancelled query -/

/-- The command of a live query. -/
def Event.command {κ : Type} : Event κ → Option Argv
  | .sent _ argv _ => some argv
  | _ => none

/-- Three clients that ask squeue for one job each. -/
def threeJobs (t : Nat) : Option (List Argv) :=
  if t = 0 then some [squeueSummaryShape.build [.plain 7]]
  else if t = 1 then some [squeueSummaryShape.build [.plain 8]]
  else if t = 2 then some [squeueSummaryShape.build [.plain 9]]
  else none

/-- The first query is answered, the second is dropped, the third is under way. -/
def cancelledMoves : List (Move (machine (Solo JobKey))) :=
  [passes 0, prints 0 [], waits 10 10, passes 1, .drop 1, waits 10 20, passes 2]

set_option maxRecDepth 10000 in
/-- The key of the dropped call is in the batch of the third. -/
theorem batch_exact_cancelled : ∃ c : Config (machine (Solo JobKey)) Unit,
    (clientsOf squeueSummaryShape 60 threeJobs (.countFrom 0) 0).run cancelledMoves = some c ∧
    ((clientsOf squeueSummaryShape 60 threeJobs (.countFrom 0) 0).notes
        (observer JobKey) cancelledMoves).filterMap
        Event.command = [squeueSummaryShape.build [.plain 7, .plain 8, .plain 9],
          squeueSummaryShape.build [.plain 7, .plain 8], squeueSummaryShape.build [.plain 7]] ∧
    Always (Exact squeueSummaryShape 60)
      ((clientsOf squeueSummaryShape 60 threeJobs (.countFrom 0) 0).notes
        (observer JobKey) cancelledMoves) := by
  have hrun : ∃ c,
      (clientsOf squeueSummaryShape 60 threeJobs (.countFrom 0) 0).run cancelledMoves = some c ∧
        True :=
    Config.exists_run (by decide +kernel)
  obtain ⟨c, hr, -⟩ := hrun
  exact ⟨c, hr, by decide +kernel, (batch_exact hr).1⟩

end Sbatch

/-
# How many live queries a cache makes

Within less than one `ttl`, the first live query of a cache is free, and every further one is due to
a key that no call had asked for in that time: while the stored answer is younger than the `ttl`, a
query is live only if it asks for a key that the answer does not cover, and every answer covers all
the keys that were asked for in the window before it.
-/
import Mathlib.Data.Finset.Card
import Mathlib.Data.Finset.Dedup
import SlurmRunner.Sbatch.Batch

namespace Sbatch

open Text Slurm Interact

/-! ## 1. Windows

A window is an interval of time shorter than `ttl`.  The keys that are asked for in it are new in
it, or they were asked for before and are asked for again. -/

section Windows

variable {κ : Type}

/-- A live query started between `a` and `b`. -/
def Event.sentIn (a b : Nat) : Event κ → Bool
  | .sent _ _ sentAt => a ≤ sentAt && sentAt ≤ b
  | _ => false

/-- The keys that a call asked for when it took the slot between `a` and `b`. -/
def Event.keysIn (a b : Nat) : Event κ → List κ
  | .asked _ keys askedAt => if a ≤ askedAt ∧ askedAt ≤ b then keys else []
  | _ => []

/-- A call that took the slot between `a` and `b` asked for `keys`. -/
def AskedIn (a b : Nat) (keys : List κ) (log : List (Event κ)) : Prop :=
  ∃ t askedAt, .asked t keys askedAt ∈ log ∧ a ≤ askedAt ∧ askedAt ≤ b

/-- The key was asked for before the window, less than twice the `ttl` before its end. -/
def PolledBefore (ttl a b : Nat) (k : κ) (log : List (Event κ)) : Prop :=
  ∃ t keys askedAt, .asked t keys askedAt ∈ log ∧ k ∈ keys ∧ askedAt < a ∧ b - askedAt < ttl * 2 ∧
    b - askedAt < Duration.max

/-- The keys asked for in the window are in `fresh`, or they are polled: asked for before the
window, or by every call in it. -/
def Polls (ttl a b : Nat) (fresh : Finset κ) (log : List (Event κ)) : Prop :=
  ∀ keys, AskedIn a b keys log → ∀ k ∈ keys,
    k ∈ fresh ∨ PolledBefore ttl a b k log ∨ ∀ keys', AskedIn a b keys' log → k ∈ keys'

/-- The keys that are asked for in a window. -/
theorem mem_keysIn {a b : Nat} {log : List (Event κ)} {k : κ} :
    k ∈ log.flatMap (Event.keysIn a b) ↔ ∃ keys, AskedIn a b keys log ∧ k ∈ keys := by
  rw [List.mem_flatMap]
  constructor
  · rintro ⟨e, he, hk⟩
    cases e with
    | asked t keys x =>
      simp only [Event.keysIn] at hk
      split at hk
      · rename_i hx
        exact ⟨keys, ⟨t, x, he, hx⟩, hk⟩
      · cases hk
    | sent | filled => cases hk
  · rintro ⟨keys, ⟨t, x, he, hx⟩, hk⟩
    exact ⟨_, he, by simpa [Event.keysIn, hx] using hk⟩

end Windows

/-! ## 2. The charge

Each query in a window is charged to a key that is new there, but for the first one: after a query
all keys of its batch are in an entry that is replayed until the window ends. -/

namespace Ledger

variable {κ : Type} [LinearOrder κ] {shape : QueryShape κ} {ttl a b : Nat} {s s' : Ledger κ}
  {fresh : Finset κ}

/-- The stored or the expected answer of the cache covers the keys of the window and the polled
ones. -/
structure Covered (ttl a b : Nat) (s : Ledger κ) (cover : List κ) : Prop where
  began : a ≤ s.instant
  some_asked : ∃ keys, AskedIn a b keys s.log
  window : ∀ keys, AskedIn a b keys s.log → ∀ k ∈ keys, k ∈ cover
  polled : ∀ k, PolledBefore ttl a b k s.log → k ∈ cover
  busy : ∀ t batch, s.busy = some (t, batch) → batch = cover
  free : s.busy = none → ∃ e, s.slot.entry = some e ∧ e.keys = cover ∧ a ≤ e.storedAt

/-- The fresh keys that were asked for in the window. -/
def charges (a b : Nat) (fresh : Finset κ) (log : List (Event κ)) : Finset κ :=
  fresh ∩ (log.flatMap (Event.keysIn a b)).toFinset

/-- The keys that are charged so far. -/
theorem mem_charges {log : List (Event κ)} {k : κ} :
    k ∈ charges a b fresh log ↔ k ∈ fresh ∧ ∃ keys, AskedIn a b keys log ∧ k ∈ keys := by
  rw [charges, Finset.mem_inter, List.mem_toFinset, mem_keysIn]

/-- What was charged stays charged. -/
theorem charges_mono {new log : List (Event κ)} :
    charges a b fresh log ⊆ charges a b fresh (new ++ log) := by
  intro k hk
  rw [mem_charges] at hk ⊢
  obtain ⟨hf, keys, ⟨t, x, hx, hab⟩, hk⟩ := hk
  exact ⟨hf, keys, ⟨t, x, List.mem_append_right _ hx, hab⟩, hk⟩

/-- A key that is asked for the first time is a new charge. -/
theorem charges_lt {log : List (Event κ)} {k : κ} {keys : List κ} (new : List (Event κ))
    (hk : k ∈ fresh) (hin : AskedIn a b keys (new ++ log)) (hkeys : k ∈ keys)
    (hnew : ∀ keys', AskedIn a b keys' log → k ∉ keys') :
    (charges a b fresh log).card < (charges a b fresh (new ++ log)).card := by
  refine Finset.card_lt_card ((Finset.ssubset_iff_of_subset charges_mono).mpr ⟨k, ?_, ?_⟩)
  · exact mem_charges.mpr ⟨hk, keys, hin, hkeys⟩
  · rw [mem_charges]
    rintro ⟨-, keys', h, hk'⟩
    exact hnew keys' h hk'

/-- The live queries of the window are charged to the fresh keys. -/
structure Charged (ttl a b : Nat) (fresh : Finset κ) (s : Ledger κ) : Prop where
  covered : s.instant ≤ b → 0 < s.log.countP (Event.sentIn a b) → ∃ cover, Covered ttl a b s cover
  count : s.log.countP (Event.sentIn a b) ≤
    1 + (charges a b fresh s.log).card

/-- In the beginning no query was sent. -/
theorem Charged.start : Charged ttl a b fresh (start κ) :=
  ⟨fun _ h => absurd h (by simp [Ledger.start]), by simp [Ledger.start]⟩

/-- A step notes calls of its own instant only. -/
theorem Step.noted {cancels : Prop} (hs : Step shape ttl cancels s s') : ∃ new,
    s'.log = new ++ s.log ∧ ∀ t keys x, .asked t keys x ∈ new → x = s.instant := by
  cases hs with
  | @replayed t _ keys _ => exact ⟨[_], rfl, by simp⟩
  | live => exact ⟨[_, _], rfl, by simp⟩
  | filled => exact ⟨[_], rfl, by simp⟩
  | dropped | elapsed => exact ⟨[], rfl, by simp⟩

omit [LinearOrder κ] in
/-- A history of polls began with polls. -/
theorem Polls.of_append {new log : List (Event κ)} {now : Nat}
    (hnew : ∀ t keys x, .asked t keys x ∈ new → x = now)
    (hpast : ∀ t keys x, .asked t keys x ∈ log → x ≤ now) (h : Polls ttl a b fresh (new ++ log)) :
    Polls ttl a b fresh log := by
  have hsub : ∀ keys, AskedIn a b keys log → AskedIn a b keys (new ++ log) :=
    fun keys ⟨t, x, hx, hab⟩ => ⟨t, x, List.mem_append_right _ hx, hab⟩
  intro keys hkeys k hk
  obtain hf | ⟨t, keys', y, hy, hk', hlt, hold⟩ | hall := h keys (hsub keys hkeys) k hk
  · exact .inl hf
  · refine .inr (.inl ⟨t, keys', y, ?_, hk', hlt, hold⟩)
    rcases List.mem_append.mp hy with hy | hy
    · obtain ⟨u, x, hx, hax, -⟩ := hkeys
      obtain rfl := hnew t keys' y hy
      exact absurd (hax.trans (hpast u keys x hx)) (Nat.not_le.mpr hlt)
    · exact hy
  · exact .inr (.inr fun keys' h' => hall keys' (hsub keys' h'))

/-- A live query in the window, after another one, asks for a fresh key for the first time. -/
theorem Covered.fresh_key {cover keys : List κ} {t : Nat} {argv : Argv}
    (h : Covered ttl a b s cover)
    (hwindow : b - a < ttl) (hb : s.instant ≤ b) (hfree : s.busy = none)
    (hentry : replayable s.slot.entry ttl keys s.instant = none)
    (hpolls : Polls ttl a b fresh (.sent t argv s.instant :: .asked t keys s.instant :: s.log)) :
    ∃ k ∈ fresh, k ∈ keys ∧ ∀ keys', AskedIn a b keys' s.log → k ∉ keys' := by
  obtain ⟨e, he, hcover, hstored⟩ := h.free hfree
  obtain ⟨k, hk, hmiss⟩ : ∃ k ∈ keys, k ∉ cover := by
    have hyoung : s.instant - e.storedAt < ttl := by omega
    simpa [replayable, he, hyoung, hcover] using hentry
  have hmem : ∀ u ks x, Event.asked u ks x ∈ s.log →
      Event.asked u ks x ∈ .sent t argv s.instant :: .asked t keys s.instant :: s.log := by
    intro u ks x hx
    simp [hx]
  refine ⟨k, ?_, hk, fun keys' hin hk' => hmiss (h.window keys' hin k hk')⟩
  obtain hf | ⟨u, keys', y, hy, hk', hlt, hold⟩ | hall :=
    hpolls keys ⟨t, s.instant, by simp, h.began, hb⟩ k hk
  · exact hf
  · refine absurd (h.polled k ⟨u, keys', y, ?_, hk', hlt, hold⟩) hmiss
    simp only [List.mem_cons, reduceCtorEq, false_or, Event.asked.injEq] at hy
    rcases hy with ⟨-, -, rfl⟩ | hy
    · exact absurd h.began (Nat.not_le.mpr hlt)
    · exact hy
  · obtain ⟨keys', hin⟩ := h.some_asked
    obtain ⟨u, x, hx, hab⟩ := hin
    exact absurd (h.window keys' ⟨u, x, hx, hab⟩ k
      (hall keys' ⟨u, x, hmem u keys' x hx, hab⟩)) hmiss

/-- After a live query in the window its batch covers the window. -/
theorem covered_live {keys : List κ} {t : Nat} {argv : Argv} (httl : ttl ≤ Duration.max)
    (hwindow : b - a < ttl) (ha : a ≤ s.instant) (hb : s.instant ≤ b)
    (batch : List κ) (hbatch : ExactBatch ttl keys s.instant s.log batch) (sl : Slot κ) :
    Covered ttl a b ⟨s.instant, sl, some (t, batch),
      .sent t argv s.instant :: .asked t keys s.instant :: s.log⟩ batch := by
  have hasked : ∀ u ks x,
      .asked u ks x ∈ (.sent t argv s.instant :: .asked t keys s.instant :: s.log :
      List (Event κ)) → ks = keys ∧ x = s.instant ∨ .asked u ks x ∈ s.log := by
    intro u ks x hx
    simp only [List.mem_cons, reduceCtorEq, false_or, Event.asked.injEq] at hx
    exact hx.imp_left fun h => h.2
  refine ⟨ha, ⟨keys, t, s.instant, by simp, ha, hb⟩, ?_, ?_, ?_, fun h => by cases h⟩
  · rintro ks ⟨u, x, hx, hax, -⟩ k hk
    rw [hbatch.mem]
    rcases hasked u ks x hx with ⟨rfl, -⟩ | hx
    · exact .inl hk
    · exact .inr ⟨u, ks, x, hx, hk, by omega, by omega⟩
  · rintro k ⟨u, ks, y, hy, hk, hlt, hold, hmax⟩
    rw [hbatch.mem]
    rcases hasked u ks y hy with ⟨-, rfl⟩ | hy
    · exact absurd ha (Nat.not_le.mpr hlt)
    · exact .inr ⟨u, ks, y, hy, hk, by omega, by omega⟩
  · intro u batch' h
    cases h
    rfl

/-- A replay is covered by the answer that it replays. -/
theorem Covered.replayed {cover keys : List κ} {t : Nat} {e : CachedEntry κ}
    (h : Covered ttl a b s cover) (hfree : s.busy = none)
    (he : replayable s.slot.entry ttl keys s.instant = some e) :
    Covered ttl a b { s with
      slot := { s.slot with recent := stampRecent s.slot.recent keys s.instant }
      log := .asked t keys s.instant :: s.log } cover := by
  obtain ⟨e', he', hcover, hstored⟩ := h.free hfree
  have hkeys : ∀ k ∈ keys, k ∈ cover := by
    rw [he', replayable, Option.filter_eq_some_iff] at he
    obtain ⟨he, hcond⟩ := he
    cases he
    simp only [Bool.and_eq_true, List.all_eq_true, decide_eq_true_eq] at hcond
    exact hcover ▸ hcond.2
  obtain ⟨ks, u, x, hx, hab⟩ := h.some_asked
  refine ⟨h.began, ⟨ks, u, x, List.mem_cons_of_mem _ hx, hab⟩, ?_, ?_, h.busy,
    fun _ => ⟨e', he', hcover, hstored⟩⟩
  · rintro ks ⟨u, x, hx, hab⟩ k hk
    rcases List.mem_cons.mp hx with hx | hx
    · cases hx
      exact hkeys k hk
    · exact h.window ks ⟨u, x, hx, hab⟩ k hk
  · rintro k ⟨u, ks, y, hy, hk, hlt, hold⟩
    rcases List.mem_cons.mp hy with hy | hy
    · cases hy
      exact absurd h.began (Nat.not_le.mpr hlt)
    · exact h.polled k ⟨u, ks, y, hy, hk, hlt, hold⟩

omit [LinearOrder κ] in
/-- An answer that is stored covers what was expected of it. -/
theorem Covered.filled {cover batch : List κ} {t : Nat} {r : Answer} (h : Covered ttl a b s cover)
    (hbusy : s.busy = some (t, batch)) :
    Covered ttl a b { s with
      slot := { s.slot with entry := some ⟨s.instant, batch, r⟩ }
      busy := none
      log := .filled t ⟨s.instant, batch, r⟩ :: s.log } cover := by
  have hold : ∀ u ks x, .asked u ks x ∈ .filled t ⟨s.instant, batch, r⟩ :: s.log →
      .asked u ks x ∈ s.log := by simp
  obtain ⟨ks, u, x, hx, hab⟩ := h.some_asked
  refine ⟨h.began, ⟨ks, u, x, List.mem_cons_of_mem _ hx, hab⟩, ?_, ?_, fun _ _ hb => (by cases hb),
    fun _ => ⟨_, rfl, h.busy t batch hbusy, h.began⟩⟩
  · rintro ks ⟨u, x, hx, hab⟩
    exact h.window ks ⟨u, x, hold u ks x hx, hab⟩
  · rintro k ⟨u, ks, y, hy, hk⟩
    exact h.polled k ⟨u, ks, y, hold u ks y hy, hk⟩

/-- **The charge is kept by every step of the ledger.** -/
theorem Charged.step (h : Charged ttl a b fresh s) (hreg : Registered ttl s)
    (httl : ttl ≤ Duration.max) (hwindow : b - a < ttl) (hs : Step shape ttl False s s')
    (hpolls : Polls ttl a b fresh s'.log) : Charged ttl a b fresh s' := by
  have hmono : ∀ new,
      1 + (charges a b fresh s.log).card ≤ 1 + (charges a b fresh (new ++ s.log)).card :=
    fun new => Nat.add_le_add_left (Finset.card_le_card charges_mono) 1
  cases hs with
  | @replayed t argv keys e hkeys hfree he =>
    refine ⟨fun hb hn => ?_, h.count.trans (hmono [_])⟩
    obtain ⟨cover, hc⟩ := h.covered hb hn
    exact ⟨cover, hc.replayed hfree he⟩
  | @live t argv keys hkeys hfree he =>
    by_cases hin : a ≤ s.instant ∧ s.instant ≤ b
    · refine ⟨fun _ _ => ⟨_, covered_live httl hwindow hin.1 hin.2 _ (hreg.exactBatch keys) _⟩, ?_⟩
      rw [List.countP_cons_of_pos (by simp [Event.sentIn, hin]),
        List.countP_cons_of_neg (by simp [Event.sentIn])]
      rcases Nat.eq_zero_or_pos (s.log.countP (Event.sentIn a b)) with hzero | hpos
      · omega
      · -- not the first one: it is sent for a key that is new in the window
        obtain ⟨cover, hc⟩ := h.covered hin.2 hpos
        obtain ⟨k, hk, hasked, hnew⟩ := hc.fresh_key hwindow hin.2 hfree he hpolls
        have hcard := charges_lt [.sent t (shape.build (batchOf (s.registry ttl keys) keys))
          s.instant, .asked t keys s.instant] hk ⟨t, s.instant, by simp, hin⟩ hasked
          hnew
        exact (Nat.add_le_add_right h.count 1).trans (Nat.add_le_add_left hcard 1)
    · have hcount : (Event.sent t (shape.build (batchOf (s.registry ttl keys) keys)) s.instant ::
          .asked t keys s.instant :: s.log).countP (Event.sentIn a b) =
            s.log.countP (Event.sentIn a b) := by
        simp [Event.sentIn, hin]
      refine ⟨fun hb hn => ?_, hcount.le.trans (h.count.trans (hmono [_, _]))⟩
      obtain ⟨cover, hc⟩ := h.covered hb (hcount ▸ hn)
      exact absurd ⟨hc.began, hb⟩ hin
  | @filled t batch r hbusy =>
    refine ⟨fun hb hn => ?_, h.count.trans (hmono [_])⟩
    obtain ⟨cover, hc⟩ := h.covered hb hn
    exact ⟨cover, hc.filled hbusy⟩
  | dropped h => exact h.elim
  | elapsed d =>
    refine ⟨fun hb hn => ?_, h.count⟩
    obtain ⟨cover, hc⟩ := h.covered ((Nat.le_add_right _ d).trans hb) hn
    exact ⟨cover, hc.began.trans (Nat.le_add_right _ d), hc.some_asked, hc.window, hc.polled,
      hc.busy, hc.free⟩

/-- And so it holds in every run. -/
theorem Reach.charged (httl : ttl ≤ Duration.max) (hwindow : b - a < ttl)
    (h : Reach shape ttl False s) (hpolls : Polls ttl a b fresh s.log) :
    Charged ttl a b fresh s := by
  induction h with
  | refl => exact .start
  | tail hreach hs ih =>
    have hreg := (Reach.history hreach).registered
    obtain ⟨new, hlog, hnew⟩ := hs.noted
    exact (ih (Polls.of_append hnew hreg.past (hlog ▸ hpolls))).step hreg httl hwindow hs hpolls

/-- Every call asks for the keys of a command line. -/
theorem Reach.parsed {cancels : Prop} (h : Reach shape ttl cancels s) :
    ∀ t keys x, .asked t keys x ∈ s.log → ∃ argv, shape.parse argv = some keys := by
  induction h with
  | refl => exact fun _ _ _ h => by cases h
  | tail _ hs ih =>
    intro t keys x hx
    cases hs with
    | replayed hkeys | live hkeys =>
      simp only [List.mem_cons, reduceCtorEq, false_or, Event.asked.injEq] at hx
      rcases hx with ⟨-, rfl, -⟩ | hx
      · exact ⟨_, hkeys⟩
      · exact ih t keys x hx
    | filled =>
      simp only [List.mem_cons, reduceCtorEq, false_or] at hx
      exact ih t keys x hx
    | dropped | elapsed => exact ih t keys x hx

end Ledger

/-! ## 3. The bound

The runs of the clients are runs of the ledger, and the notes of a run are its history. -/

section Bound

variable {κ : Type} [LinearOrder κ] {shape : QueryShape κ} {ttl : Nat}
  {clients : Nat → Option (List Argv)} {ms : List (Move (machine (Solo κ)))} {uuids : Supply Nat}
  {utc : Nat}
  {c : Config (machine (Solo κ)) Unit}

/-- **The load of a cache**: when no call is dropped, the live queries that start within less than
one `ttl` are at most one more than the distinct keys asked for in that time; there is at most one
if the shape has no keys, and at most one if the calls of the window only poll, that is ask for keys
that all of them ask for or that were asked for less than twice the `ttl` before. -/
theorem query_load (hr : (clientsOf shape ttl clients uuids utc).run ms = some c)
    (hkept : ∀ t, .drop t ∉ ms) (httl : ttl ≤ Duration.max) {a b : Nat} (hwindow : b - a < ttl) :
    ((clientsOf shape ttl clients uuids utc).notes (observer κ) ms).countP (Event.sentIn a b) ≤
        1 + (((clientsOf shape ttl clients uuids utc).notes (observer κ) ms).flatMap
          (Event.keysIn a b)).toFinset.card ∧
      ((∀ argv keys, shape.parse argv = some keys → keys = []) →
        ((clientsOf shape ttl clients uuids utc).notes (observer κ) ms).countP
          (Event.sentIn a b) ≤ 1) ∧
      (Polls ttl a b ∅ ((clientsOf shape ttl clients uuids utc).notes (observer κ) ms) →
        ((clientsOf shape ttl clients uuids utc).notes (observer κ) ms).countP
          (Event.sentIn a b) ≤ 1) := by
  obtain ⟨s, hreach, -, hlog⟩ : ∃ s, Ledger.Reach shape ttl False s ∧ Kept shape ttl c s ∧
      s.log = (clientsOf shape ttl clients uuids utc).notes (observer κ) ms :=
    captures_ledger (fun ⟨t, ht⟩ => hkept t ht) hr
  rw [← hlog]
  have hbound : ∀ fresh, Polls ttl a b fresh s.log →
      s.log.countP (Event.sentIn a b) ≤ 1 + (Ledger.charges a b fresh s.log).card :=
    fun fresh h => (hreach.charged httl hwindow h).count
  have hpolls : Polls ttl a b ∅ s.log → s.log.countP (Event.sentIn a b) ≤ 1 := fun h => by
    simpa [Ledger.charges] using hbound ∅ h
  refine ⟨?_, fun hkeyless => hpolls fun keys hin k hk => ?_, hpolls⟩
  · have hall := hbound (s.log.flatMap (Event.keysIn a b)).toFinset fun keys hin k hk =>
      .inl (List.mem_toFinset.mpr (mem_keysIn.mpr ⟨keys, hin, hk⟩))
    simpa [Ledger.charges] using hall
  · obtain ⟨t, x, hx, -⟩ := hin
    obtain ⟨argv, hargv⟩ := hreach.parsed t keys x hx
    rw [hkeyless argv keys hargv] at hk
    cases hk

end Bound

/-! ### A new key and a poll -/

/-- Two clients ask for one job, the third for another one. -/
def twoClients (t : Nat) : Option (List Argv) :=
  if t = 0 then some [squeueSummaryShape.build [.plain 7], squeueSummaryShape.build [.plain 7]]
  else if t = 1 then some [squeueSummaryShape.build [.plain 8]]
  else none

/-- The new key costs a query at 10, the poll at 20 is a replay. -/
def pollMoves : List (Move (machine (Solo JobKey))) :=
  [passes 0, prints 0 [], waits 10 10, passes 1, prints 1 [], waits 10 20, passes 0]

set_option maxRecDepth 10000 in
/-- A key that is polled and one that is new: two queries in one window. -/
theorem query_load_polled : ∃ c : Config (machine (Solo JobKey)) Unit,
    (clientsOf squeueSummaryShape 60 twoClients (.countFrom 0) 0).run pollMoves = some c ∧
    ((clientsOf squeueSummaryShape 60 twoClients (.countFrom 0) 0).notes
        (observer JobKey) pollMoves).countP
      (Event.sentIn 0 20) = 2 ∧
    ((clientsOf squeueSummaryShape 60 twoClients (.countFrom 0) 0).notes
        (observer JobKey) pollMoves).countP
      (Event.sentIn 0 20) ≤ 1 + 2 := by
  have hrun : ∃ c,
      (clientsOf squeueSummaryShape 60 twoClients (.countFrom 0) 0).run pollMoves = some c ∧
        True :=
    Config.exists_run (by decide +kernel)
  obtain ⟨c, hr, -⟩ := hrun
  have hkept : ∀ t, .drop t ∉ pollMoves := by simp [pollMoves, passes, prints, waits]
  have hload := (query_load hr hkept (by decide +kernel) (a := 0) (b := 20) (by decide)).1
  exact ⟨c, hr, by decide +kernel, hload.trans (by decide +kernel)⟩

end Sbatch

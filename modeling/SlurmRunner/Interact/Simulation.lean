/-
# Operations made of operations

A machine implements another one when each operation of the latter is made by a program over the
former, in several steps, between which other tasks run.  One of these steps is the one that counts:
its answer `completes` the operation, and the others do not show.

If the programs of the tasks are related step by step (`Realizes`), then every run of the machine
below is matched by a run of the machine above, with the same results (`Simulates.run`).  A task
that is dropped in the middle of an operation is one that was dropped before it or after it.
-/
import SlurmRunner.Interact.Progress

namespace Interact

variable {E E' : Sig} {α β : Type}

/-! ## 1. Machines on which every operation is an await

On such a machine any task may be dropped before each of its operations, and nothing is done in one
go.  A run of it is a sequence of single operations, which is what a simulation goes through. -/

namespace Machine

/-- A task may be suspended at every operation. -/
def Interruptible (M : Machine E) : Prop := ∀ o, M.await o = true

/-- No operation is carried out without an await. -/
theorem Interruptible.settle {M : Machine E} (h : M.Interruptible) (t : Nat) (p : Prog E α)
    (w : M.World) : M.settle t p w = some (p, w) := by
  cases p with
  | ret a => rfl
  | ask o k => exact M.settle_await (h o)

end Machine

/-- What a program returns only after `n` operations, it has not returned in a shorter run. -/
theorem Config.run_delays {M : Machine E} (hM : M.Interruptible) {bad : α → Prop} {n : Nat}
    {ms : List (Move M)} {c c' : Config M α}
    (h : ∀ t p, c.tasks t = some p → p.Delays bad n) (hr : c.run ms = some c') :
    ∀ t p, c'.tasks t = some p → p.Delays bad (n - ms.length) := by
  induction ms generalizing c n with
  | nil =>
    cases hr
    exact h
  | cons m ms ih =>
    simp only [run] at hr
    split at hr
    · rename_i c₁ hm
      have hnext : ∀ t p, c₁.tasks t = some p → p.Delays bad (n - 1) := by
        have hkeep : ∀ {t x}, c₁.tasks = Function.update c.tasks t x → ∀ u p, u ≠ t →
            c₁.tasks u = some p → p.Delays bad (n - 1) := by
          intro t x htasks u p hu hp
          rw [htasks, Function.update_of_ne hu] at hp
          exact (h u p hp).mono (Nat.sub_le n 1)
        intro u p hp
        rcases Config.next_cases hm with ⟨t, i, o, k, a, w, q, rfl, ht, -, hset, htasks⟩ |
          ⟨e, rfl, -, htasks⟩ | ⟨t, o, k, rfl, -, -, htasks⟩
        · by_cases hu : u = t
          · subst hu
            rw [hM.settle] at hset
            cases hset
            rw [htasks, Function.update_self] at hp
            cases hp
            exact h u _ ht a
          · exact hkeep htasks u p hu hp
        · exact (h u p (htasks ▸ hp)).mono (Nat.sub_le n 1)
        · by_cases hu : u = t
          · subst hu
            rw [htasks, Function.update_self] at hp
            cases hp
          · exact hkeep htasks u p hu hp
      intro t p hp
      rw [List.length_cons, Nat.add_comm, ← Nat.sub_sub]
      exact ih hnext hr t p hp
    · cases hr

/-- **What takes longer than the run has not come.** -/
theorem Config.not_bad_of_run {M : Machine E} (hM : M.Interruptible) {bad : α → Prop} {n : Nat}
    {ms : List (Move M)} {c c' : Config M α} {t : Nat} {a : α}
    (h : ∀ t p, c.tasks t = some p → p.Delays bad n) (hr : c.run ms = some c')
    (hn : ms.length < n) (ha : c'.result t = some a) : ¬ bad a := by
  intro hbad
  have hzero : n - ms.length = 0 := Config.run_delays hM h hr t _ (result_eq_some.mp ha) hbad
  omega

/-- A run in two parts. -/
theorem Config.run_append {M : Machine E} {ms ms' : List (Move M)} {c c' : Config M α}
    (h : c.run ms = some c') : c.run (ms ++ ms') = c'.run ms' := by
  induction ms generalizing c with
  | nil =>
    cases h
    rfl
  | cons m ms ih =>
    simp only [run, List.cons_append] at h ⊢
    split at h
    · exact ih h
    · cases h

/-! ## 2. Implementations

A program of the upper machine is implemented by one of the lower machine that makes some operations
in between: each of its steps either completes one operation above or is silent there.  What a task
has prepared and not completed is its stage. -/

/-- `M` implements the operations of `N`, for tasks that keep to the protocol `P`. -/
structure Implementation (M : Machine E) (P : Protocol E) (N : Machine E') extends
    Agreement M P where
  below : M.Interruptible
  above : N.Interruptible
  /-- What a world of `M` stands for. -/
  Stands : M.World → N.World → Prop
  /-- The operation is a step towards the other one. -/
  towards : P.Stage → E.Op → E'.Op → Prop
  /-- The answers that an operation can get. -/
  possible : P.Stage → (o : E.Op) → E.Ans o → Prop
  /-- The answer that an operation has with this step. -/
  completes : P.Stage → (o : E.Op) → E.Ans o → (o' : E'.Op) → Option (E'.Ans o')
  possible_of_exec : ∀ {t s o i w a w' v}, agrees t s w → P.allows s o →
    M.exec t o i w = some (a, w') → Stands w v → possible s o a
  silent : ∀ {t s o o' i w a w' v}, agrees t s w → P.allows s o → towards s o o' →
    M.exec t o i w = some (a, w') → completes s o a o' = none → Stands w v → Stands w' v
  effect : ∀ {t s o o' i w a w' v b}, agrees t s w → P.allows s o → towards s o o' →
    M.exec t o i w = some (a, w') → completes s o a o' = some b → Stands w v →
    ∃ i' v', N.exec t o' i' v = some (b, v') ∧ Stands w' v'
  stands_tick : ∀ {e w w' v}, M.tick e w = some w' → Stands w v →
    ∃ e' v', N.tick e' v = some v' ∧ Stands w' v'
  stands_drop : ∀ {t w v}, Stands w v → Stands (M.drop t w) (N.drop t v)

variable {M : Machine E} {P : Protocol E} {N : Machine E'}

/-- How the program above goes on: it waits for its answer, or it has got it. -/
def answered {o' : E'.Op} (k' : E'.Ans o' → Prog E' α) : Option (E'.Ans o') → Prog E' α
  | none => .ask o' k'
  | some b => k' b

/-- From stage `s` on, the program `p` makes the operations of `q` one after another, and returns
what `q` returns, at a stage as `Q` says. -/
def Realizes (I : Implementation M P N) (Q : P.Stage → α → Prop) :
    P.Stage → Prog E α → Prog E' α → Prop
  | s, .ret a, q => Q s a ∧ q = .ret a
  | s, .ask o k, q => ∃ o' k', q = .ask o' k' ∧ P.allows s o ∧ I.towards s o o' ∧
      ∀ x, I.possible s o x →
        Realizes I Q (P.next s o x) (k x) (answered k' (I.completes s o x o'))

section Rules

variable {I : Implementation M P N} {Q : P.Stage → α → Prop} {R : P.Stage → β → Prop} {s : P.Stage}

/-- Both return the same. -/
theorem realizes_ret {a : α} (ha : Q s a) : Realizes I Q s (.ret a) (.ret a) := ⟨ha, rfl⟩

/-- Sequencing. -/
theorem realizes_bind {p : Prog E α} {q : Prog E' α} {f : α → Prog E β} {g : α → Prog E' β}
    (hp : Realizes I Q s p q) (hf : ∀ s' a, Q s' a → Realizes I R s' (f a) (g a)) :
    Realizes I R s (p >>= f) (q >>= g) := by
  induction p generalizing s q with
  | ret a =>
    obtain ⟨ha, rfl⟩ := hp
    exact hf s a ha
  | ask o k ih =>
    obtain ⟨o', k', rfl, hallows, htowards, hk⟩ := hp
    refine ⟨o', fun b => k' b >>= g, rfl, hallows, htowards, fun x hpossible => ?_⟩
    have hx := ih x (hk x hpossible)
    cases hcompletes : I.completes s o x o' with
    | none => rwa [hcompletes] at hx
    | some b => rwa [hcompletes] at hx

/-- The same function of both results. -/
theorem realizes_map {p : Prog E α} {q : Prog E' α} (f : α → β) {R : P.Stage → β → Prop}
    (hp : Realizes I Q s p q) (h : ∀ s' a, Q s' a → R s' (f a)) :
    Realizes I R s (f <$> p) (f <$> q) := by
  rw [map_eq_pure_bind, map_eq_pure_bind]
  exact realizes_bind hp fun s' a ha => realizes_ret (h s' a ha)

end Rules

/-! ## 3. Runs

The induction on the run of the lower machine.  A drop is the interesting case: the task may be in
the middle of an operation, which the upper machine then has either made or not. -/

/-- The two tasks are at the same place, or both are gone. -/
def Matched (I : Implementation M P N) (s : P.Stage) :
    Option (Prog E α) → Option (Prog E' α) → Prop
  | none, none => I.idle s
  | some p, some q => Realizes I (fun s' _ => I.idle s') s p q
  | _, _ => False

/-- The configuration `c` below stands for the configuration `d` above. -/
def Simulates (I : Implementation M P N) (c : Config M α) (d : Config N α) : Prop :=
  I.Stands c.world d.world ∧ ∃ stage : Nat → P.Stage,
    (∀ t, I.agrees t (stage t) c.world ∧ Matched I (stage t) (c.tasks t) (d.tasks t)) ∧
      ∀ t u, u ≠ t → I.apart (stage t) (stage u)

namespace Simulates

variable {I : Implementation M P N} {c c' : Config M α} {d : Config N α}

/-- The tasks have returned the same. -/
theorem result (h : Simulates I c d) (t : Nat) : c.result t = d.result t := by
  obtain ⟨-, stage, hat, -⟩ := h
  have hmatched := (hat t).2
  unfold Config.result
  generalize c.tasks t = p at hmatched ⊢
  generalize d.tasks t = q at hmatched ⊢
  rcases p with _ | _ | ⟨o, k⟩ <;> rcases q with _ | q <;> try exact hmatched.elim
  · rfl
  · rw [hmatched.2]
  · obtain ⟨o', k', rfl, -⟩ := hmatched
    rfl

/-- The same tasks were dropped. -/
theorem dropped (h : Simulates I c d) (t : Nat) : c.tasks t = none ↔ d.tasks t = none := by
  obtain ⟨-, stage, hat, -⟩ := h
  have hmatched := (hat t).2
  generalize c.tasks t = p at hmatched ⊢
  generalize d.tasks t = q at hmatched ⊢
  cases p <;> cases q <;> simp [Matched] at hmatched ⊢

/-- One task is at a new stage, and the others stay where they are. -/
theorem of_update {t : Nat} {s : P.Stage} {stage : Nat → P.Stage} {w : M.World} {v : N.World}
    {x : Option (Prog E α)} {y : Option (Prog E' α)} (hstands : I.Stands w v)
    (hself : I.agrees t s w) (hmatched : Matched I s x y)
    (hothers : ∀ u, u ≠ t → I.agrees u (stage u) w ∧ I.apart s (stage u) ∧
      Matched I (stage u) (c.tasks u) (d.tasks u))
    (hapart : ∀ u u', u' ≠ u → I.apart (stage u) (stage u')) :
    Simulates I ⟨w, Function.update c.tasks t x⟩ ⟨v, Function.update d.tasks t y⟩ := by
  refine ⟨hstands, Function.update stage t s, fun u => ?_, fun u u' hu => ?_⟩
  · by_cases hut : u = t
    · subst hut
      simpa only [Function.update_self] using ⟨hself, hmatched⟩
    · obtain ⟨hagrees, -, hkeep⟩ := hothers u hut
      simpa only [Function.update_of_ne hut] using ⟨hagrees, hkeep⟩
  · by_cases hut : u = t
    · subst hut
      rw [Function.update_self, Function.update_of_ne hu]
      exact (hothers u' hu).2.1
    · rw [Function.update_of_ne hut]
      by_cases hut' : u' = t
      · subst hut'
        rw [Function.update_self]
        exact I.apart_symm (hothers u hut).2.1
      · rw [Function.update_of_ne hut']
        exact hapart u u' hu

/-- **One move below is at most one move above.** -/
theorem next {m : Move M} (h : Simulates I c d) (hm : c.next m = some c') :
    ∃ ms d', d.run ms = some d' ∧ Simulates I c' d' := by
  obtain ⟨hstands, stage, hat, hapart⟩ := h
  rcases Config.next_cases hm with ⟨t, i, o, k, a, w, p, rfl, ht, he, hset, htasks⟩ |
    ⟨e, rfl, he, htasks⟩ | ⟨t, o, k, rfl, ht, hw, htasks⟩
  · rw [I.below.settle] at hset
    obtain ⟨rfl, hworld⟩ := Prod.mk.inj (Option.some.inj hset)
    obtain ⟨hagrees, hmatched⟩ := hat t
    rw [ht] at hmatched
    cases hd : d.tasks t with
    | none => exact (hd ▸ hmatched).elim
    | some q =>
      rw [hd] at hmatched
      obtain ⟨o', k', rfl, hallows, htowards, hk⟩ := hmatched
      have hothers : ∀ u, u ≠ t → I.agrees u (stage u) w ∧
          I.apart (P.next (stage t) o a) (stage u) ∧
            Matched I (stage u) (c.tasks u) (d.tasks u) := by
        intro u hu
        obtain ⟨hagree, hap⟩ := I.other hagrees hallows he hu (hat u).1 (hapart t u hu)
        exact ⟨hagree, hap, (hat u).2⟩
      have hown := I.own hagrees hallows he
      have hx := hk a (I.possible_of_exec hagrees hallows he hstands)
      obtain ⟨world, tasks⟩ := c'
      cases hworld
      cases htasks
      cases hcompletes : I.completes (stage t) o a o' with
      | none =>
        rw [hcompletes] at hx
        have hkeep : Function.update d.tasks t (some (.ask o' k')) = d.tasks := by
          rw [← hd, Function.update_eq_self]
        -- nothing happens above
        refine ⟨[], d, rfl, ?_⟩
        have hsim := of_update (c := c) (d := d) (x := some (k a)) (y := some (.ask o' k'))
          (I.silent hagrees hallows htowards he hcompletes hstands) hown hx hothers hapart
        rwa [hkeep] at hsim
      | some b =>
        rw [hcompletes] at hx
        -- the operation above takes effect now
        obtain ⟨i', v, hv, hstands'⟩ := I.effect hagrees hallows htowards he hcompletes hstands
        refine ⟨[.pass t i'], ⟨v, Function.update d.tasks t (some (k' b))⟩, ?_,
          of_update (x := some (k a)) (y := some (k' b)) hstands' hown hx hothers hapart⟩
        simp only [Config.run, Config.next, hd, hv, I.above.settle]
  · obtain ⟨e', v, hv, hstands'⟩ := I.stands_tick he hstands
    refine ⟨[.tick e'], ⟨v, d.tasks⟩, ?_, hstands', stage, fun u => ?_, hapart⟩
    · simp only [Config.run, Config.next, hv]
    · rw [htasks]
      exact ⟨I.tick he (hat u).1, (hat u).2⟩
  · obtain ⟨hagrees, hmatched⟩ := hat t
    rw [ht] at hmatched
    cases hd : d.tasks t with
    | none => exact (hd ▸ hmatched).elim
    | some q =>
      rw [hd] at hmatched
      obtain ⟨o', k', rfl, -⟩ := hmatched
      obtain ⟨s', hidle, hagree, hap⟩ := I.drop_own hagrees
      obtain ⟨world, tasks⟩ := c'
      cases hw
      cases htasks
      refine ⟨[.drop t], ⟨N.drop t d.world, Function.update d.tasks t none⟩, ?_, ?_⟩
      · simp only [Config.run, Config.next, hd]
      · exact of_update (I.stands_drop hstands) hagree hidle
          (fun u hu => ⟨I.drop_other hu (hat u).1, hap _ (hapart t u hu), (hat u).2⟩) hapart

/-- **Every run below is matched by a run above.** -/
theorem run {ms : List (Move M)} (h : Simulates I c d) (hr : c.run ms = some c') :
    ∃ ms' d', d.run ms' = some d' ∧ Simulates I c' d' := by
  induction ms generalizing c d with
  | nil =>
    cases hr
    exact ⟨[], d, rfl, h⟩
  | cons m ms ih =>
    simp only [Config.run] at hr
    split at hr
    · rename_i c₁ hm
      obtain ⟨ms₁, d₁, hrun₁, h₁⟩ := h.next hm
      obtain ⟨ms₂, d₂, hrun₂, h₂⟩ := ih h₁ hr
      exact ⟨ms₁ ++ ms₂, d₂, (Config.run_append hrun₁).trans hrun₂, h₂⟩
    · cases hr

end Simulates

end Interact

/-
# Progress

Tasks that hold locks can wait for each other for ever.  This file gives a discipline under which
they do not, and the completion that follows from it.

A `Protocol` says which operations a task may make next, by the stage it has reached.  An
`Agreement` ties the stages to a machine: what they say of the world stays true, whatever the other
tasks do.  In a `LockOrder` an operation at which a task is suspended can be made, or it waits for a
task that has something in hand and is itself suspended, if at all, at an operation of a higher
rank, or what it waits for is not there at all.  The argument then has two halves.

* From any such configuration some task can go on (`LockOrder.exists_pass`), by induction on the
  ranks that are left.
* A program is a well-founded tree and every pass goes down in one of finitely many trees.  So if
  some task can always go on, the moves of the tasks come to an end, and then all have returned
  (`Config.exists_run_ended`).

`LockOrder.exists_ended` puts the halves together: from every configuration that a run reaches,
drops included, the tasks that are left can all return, and no further one has to be dropped for it.
The order also says which answers of the surroundings suffice for this (`gives`).
-/
import Mathlib.Data.DFinsupp.WellFounded
import SlurmRunner.Interact.Machine

namespace Interact

variable {E : Sig} {α β : Type}

/-! ## 1. Protocols

A stage is what a task has in hand, such as the lock that it holds.  `Keeps` is proved of a program
by its structure, with one rule for each way to build a program, so a protocol is checked where the
program is written and not along its runs. -/

/-- A protocol of one task: what it may ask for at a stage, and the stage after the answer. -/
structure Protocol (E : Sig) where
  Stage : Type
  allows : Stage → E.Op → Prop
  next : (s : Stage) → (o : E.Op) → E.Ans o → Stage

namespace Prog

variable {P : Protocol E}

/-- Started at stage `s`, the program keeps to the protocol, and it returns at a stage as `Q`
says. -/
def Keeps (P : Protocol E) (Q : P.Stage → α → Prop) : P.Stage → Prog E α → Prop
  | s, .ret a => Q s a
  | s, .ask o k => P.allows s o ∧ ∀ x, (k x).Keeps P Q (P.next s o x)

/-- A program that returns keeps to the protocol if its result is as it must be there. -/
theorem keeps_ret {Q : P.Stage → α → Prop} {s : P.Stage} {a : α} (h : Q s a) :
    (Prog.ret a : Prog E α).Keeps P Q s := h

/-- An operation has to be allowed at the stage. -/
theorem keeps_op {o : E.Op} {Q : P.Stage → E.Ans o → Prop} {s : P.Stage} (ho : P.allows s o)
    (h : ∀ x, Q (P.next s o x) x) : (Prog.op o).Keeps P Q s :=
  ⟨ho, h⟩

/-- A weaker demand on the result. -/
theorem Keeps.mono {Q Q' : P.Stage → α → Prop} {s : P.Stage} {p : Prog E α} (hp : p.Keeps P Q s)
    (h : ∀ s' a, Q s' a → Q' s' a) : p.Keeps P Q' s := by
  induction p generalizing s with
  | ret a => exact h s a hp
  | ask o k ih => exact ⟨hp.1, fun x => ih x (hp.2 x)⟩

/-- Sequencing. -/
theorem keeps_bind {Q : P.Stage → α → Prop} {R : P.Stage → β → Prop} {s : P.Stage} {p : Prog E α}
    {f : α → Prog E β} (hp : p.Keeps P Q s) (hf : ∀ s' a, Q s' a → (f a).Keeps P R s') :
    (p >>= f).Keeps P R s := by
  induction p generalizing s with
  | ret a => exact hf s a hp
  | ask o k ih => exact ⟨hp.1, fun x => ih x (hp.2 x)⟩

/-- The program returns at the stage at which it was started. -/
def Steady (P : Protocol E) (s : P.Stage) (p : Prog E α) : Prop := p.Keeps P (fun s' _ => s' = s) s

/-- A program that returns comes back to its stage. -/
theorem steady_ret {s : P.Stage} (a : α) : (Prog.ret a : Prog E α).Steady P s := rfl

/-- After a program that comes back to its stage, the next one begins at the same. -/
theorem Steady.then {Q : P.Stage → β → Prop} {s : P.Stage} {p : Prog E α} {f : α → Prog E β}
    (hp : p.Steady P s) (hf : ∀ a, (f a).Keeps P Q s) : (p >>= f).Keeps P Q s := by
  refine keeps_bind hp ?_
  rintro s' a rfl
  exact hf a

/-- And both together come back to it. -/
theorem Steady.bind {s : P.Stage} {p : Prog E α} {f : α → Prog E β} (hp : p.Steady P s)
    (hf : ∀ a, (f a).Steady P s) : (p >>= f).Steady P s := hp.then hf

/-- A program of operations that leave the stage as it is. -/
theorem steady_of_uses {S : E.Op → Prop} {s : P.Stage} {p : Prog E α} (hp : p.Uses S)
    (h : ∀ o, S o → P.allows s o ∧ ∀ x, P.next s o x = s) : p.Steady P s := by
  induction p with
  | ret a => rfl
  | ask o k ih =>
    obtain ⟨ho, hnext⟩ := h o hp.1
    exact ⟨ho, fun x => (hnext x).symm ▸ ih x (hp.2 x)⟩

/-- What the stages of a protocol only ever add to. -/
structure Growth (P : Protocol E) where
  le : P.Stage → P.Stage → Prop
  refl : ∀ s, le s s
  trans : ∀ {s s' s''}, le s s' → le s' s'' → le s s''
  next : ∀ s o a, le s (P.next s o a)

/-- Started at stage `s`, the program keeps to the protocol, loses nothing and returns as `Q`
says. -/
def Advances (G : Growth P) (Q : P.Stage → α → Prop) (s : P.Stage) (p : Prog E α) : Prop :=
  p.Keeps P (fun s' a => G.le s s' ∧ Q s' a) s

section Advances

variable {G : Growth P} {Q : P.Stage → α → Prop} {R : P.Stage → β → Prop} {s : P.Stage}
  {p : Prog E α}

/-- Nothing is done, so the stage has not grown. -/
theorem advances_ret {a : α} (ha : Q s a) : (Prog.ret a : Prog E α).Advances G Q s :=
  keeps_ret ⟨G.refl s, ha⟩

/-- The stage after an operation is the next one. -/
theorem advances_op {o : E.Op} (ho : P.allows s o) :
    (Prog.op o).Advances G (fun s' a => s' = P.next s o a) s :=
  keeps_op ho fun a => ⟨G.next s o a, rfl⟩

/-- What is known of the stage may use that it has grown. -/
theorem Advances.mono {Q' : P.Stage → α → Prop} (hp : p.Advances G Q s)
    (h : ∀ s' a, G.le s s' → Q s' a → Q' s' a) : p.Advances G Q' s :=
  Keeps.mono hp fun s' a ⟨hle, ha⟩ => ⟨hle, h s' a hle ha⟩

/-- Sequencing. -/
theorem Advances.bind {f : α → Prog E β} (hp : p.Advances G Q s)
    (hf : ∀ s' a, G.le s s' → Q s' a → (f a).Advances G R s') : (p >>= f).Advances G R s :=
  keeps_bind hp fun s' a ⟨hle, ha⟩ =>
    Keeps.mono (hf s' a hle ha) fun _ _ ⟨hle', hb⟩ => ⟨G.trans hle hle', hb⟩

/-- One operation and what follows it. -/
theorem advances_then {o : E.Op} {f : E.Ans o → Prog E β} (ho : P.allows s o)
    (hf : ∀ a, (f a).Advances G R (P.next s o a)) : (Prog.op o >>= f).Advances G R s := by
  refine (advances_op ho).bind ?_
  rintro s' a - rfl
  exact hf a

/-- A result that is wrapped. -/
theorem Advances.map {f : α → β} (hp : p.Advances G (fun s' a => R s' (f a)) s) :
    (f <$> p).Advances G R s := by
  rw [map_eq_pure_bind]
  exact hp.bind fun _ _ _ ha => advances_ret ha

/-- A program that leaves the stage as it is. -/
theorem advances_of_steady (hp : p.Steady P s) (hQ : ∀ a, Q s a) : p.Advances G Q s := by
  refine Keeps.mono hp ?_
  rintro s' a rfl
  exact ⟨G.refl _, hQ a⟩

/-- Where everything is allowed, nothing is lost. -/
theorem advances_of_allows (h : ∀ s o, P.allows s o) : p.Advances G (fun _ _ => True) s := by
  induction p generalizing s with
  | ret a => exact advances_ret trivial
  | ask o k ih =>
    exact ⟨h s o, fun x => Keeps.mono (ih x) fun _ _ ⟨hle, ha⟩ => ⟨G.trans (G.next s o x) hle, ha⟩⟩

end Advances

/-! ## 2. Going down in a program

A program is well-founded: however its operations are answered, it returns after finitely many.  For
the tasks of a configuration this is lifted to tuples of programs, of which one goes down and the
others stay. -/

/-- `q` is what `p` goes on with after one answer. -/
def Next (q p : Prog E α) : Prop := ∃ o k x, p = .ask o k ∧ q = k x

/-- No program can go on for ever. -/
theorem next_wf : WellFounded fun q p : Prog E α => Next q p := by
  refine ⟨fun p => ?_⟩
  induction p with
  | ret a => exact ⟨_, fun q ⟨o, k, x, hp, _⟩ => by cases hp⟩
  | ask o k ih =>
    refine ⟨_, fun q ⟨o', k', x, hp, hq⟩ => ?_⟩
    cases hp
    exact hq ▸ ih x

/-- A task that has gone down in its program. -/
def Shrinks : Option (Prog E α) → Option (Prog E α) → Prop
  | some q, some p => Relation.TransGen (fun q p : Prog E α => Next q p) q p
  | _, _ => False

/-- The same, where a task may also be dropped. -/
theorem shrinks_wf : WellFounded fun q p : Option (Prog E α) => Shrinks q p := by
  have hsome : ∀ p : Prog E α, Acc (fun q p : Option (Prog E α) => Shrinks q p) (some p) := by
    intro p
    induction p using next_wf.transGen.induction with
    | h p ih =>
      refine ⟨_, fun q hq => ?_⟩
      cases q with
      | none => exact hq.elim
      | some q => exact ih q hq
  refine ⟨fun p => ?_⟩
  cases p with
  | none => exact ⟨_, fun q hq => by cases q <;> exact hq.elim⟩
  | some p => exact hsome p

/-- The block of a task up to its next await goes down, or stays. -/
theorem settle_down {M : Machine E} {t : Nat} {p q : Prog E α} {w w' : M.World}
    (h : M.settle t p w = some (q, w')) :
    Relation.ReflTransGen (fun q p : Prog E α => Next q p) q p := by
  induction p generalizing w with
  | ret a =>
    cases h
    exact .refl
  | ask o k ih =>
    unfold Machine.settle at h
    split at h
    · cases h
      exact .refl
    · split at h
      · rename_i x w₁ he
        exact (ih x h).tail ⟨o, k, x, rfl, rfl⟩
      · cases h

end Prog

/-! ## 3. Completion

If some task can always go on, then finitely many moves bring all tasks to their results, by
well-founded induction on the tuple of the programs. -/

namespace Config

variable {M : Machine E}

/-- Only the first `n` tasks are there. -/
def Within (n : Nat) (c : Config M α) : Prop := ∀ t p, c.tasks t = some p → t < n

/-- No move brings a new task. -/
theorem Within.next {n : Nat} {c c' : Config M α} {m : Move M} (h : c.Within n)
    (hm : c.next m = some c') : c'.Within n := by
  intro u p hu
  have hkeep : ∀ {t o k x}, c.tasks t = some (.ask o k) → c'.tasks = Function.update c.tasks t x →
      u < n := by
    intro t o k x ht htasks
    by_cases hut : u = t
    · exact hut ▸ h t _ ht
    · rw [htasks, Function.update_of_ne hut] at hu
      exact h u p hu
  rcases next_cases hm with ⟨t, i, o, k, a, w, q, -, ht, -, -, htasks⟩ | ⟨e, -, -, htasks⟩ |
    ⟨t, o, k, -, ht, -, htasks⟩
  · exact hkeep ht htasks
  · exact h u p (htasks ▸ hu)
  · exact hkeep ht htasks

/-- A run has no task in places where there was none. -/
theorem Within.run {n : Nat} {ms : List (Move M)} {c c' : Config M α} (h : c.Within n)
    (hr : c.run ms = some c') : c'.Within n :=
  run_induct (P := fun c => c.Within n) (fun _ _ _ hc hm => hc.next hm) ms c c' h hr

/-- A pass of a task goes down in its program and leaves the others alone. -/
theorem pass_shrinks {c c' : Config M α} {t : Nat} {i : M.In} (h : c.next (.pass t i) = some c') :
    Prog.Shrinks (c'.tasks t) (c.tasks t) ∧ (∀ u, u ≠ t → c'.tasks u = c.tasks u) ∧
      ∃ q, c'.tasks t = some q := by
  rcases next_cases h with ⟨u, j, o, k, a, w, q, hm, ht, -, hset, htasks⟩ | ⟨e, hm, -⟩ |
    ⟨u, o, k, hm, -⟩
  · cases hm
    have hq : c'.tasks t = some q := by rw [htasks, Function.update_self]
    refine ⟨?_, fun u hu => by rw [htasks, Function.update_of_ne hu], q, hq⟩
    rw [hq, ht]
    exact Relation.TransGen.tail' (Prog.settle_down hset) ⟨o, k, a, rfl, rfl⟩
  · cases hm
  · cases hm

/-- A tick moves no task. -/
theorem tick_tasks {c c' : Config M α} {e : M.Env} (h : c.next (.tick e) = some c') :
    c'.tasks = c.tasks := by
  rcases next_cases h with ⟨u, j, o, k, a, w, q, hm, -⟩ | ⟨e, hm, -, htasks⟩ | ⟨u, o, k, hm, -⟩
  · cases hm
  · exact htasks
  · cases hm

/-- The move is a tick, or a task passes with an input as `G` says. -/
def Goes (G : M.In → Prop) : Move M → Prop
  | .pass _ i => G i
  | .tick _ => True
  | .drop _ => False

/-- The task is suspended at an operation as `S` says. -/
def StuckAt (S : E.Op → M.World → Prop) (c : Config M α) (t : Nat) : Prop :=
  ∃ o k, c.tasks t = some (.ask o k) ∧ S o c.world

/-- Some task can pass, perhaps after a move of the environment. -/
def CanPass (G : M.In → Prop) (c : Config M α) : Prop :=
  ∃ e c₁ u i c₂, c.next (.tick e) = some c₁ ∧ c₁.next (.pass u i) = some c₂ ∧ G i

/-- **Completion.**  If in every configuration as `I` says some task can pass, unless a task waits
for what is not there, then all other tasks can return. -/
theorem exists_run_ended {I : Config M α → Prop} {G : M.In → Prop} {S : E.Op → M.World → Prop}
    {n : Nat} (hstep : ∀ c m c', I c → c.next m = some c' → I c')
    (hpass : ∀ c t o k, I c → c.tasks t = some (.ask o k) → ¬ S o c.world → c.CanPass G)
    (c : Config M α) (hI : I c) (hn : c.Within n) :
    ∃ ms c', (∀ m ∈ ms, Goes G m) ∧ c.run ms = some c' ∧
      ∀ t, c.tasks t ≠ none → c'.Ended t ∨ c'.StuckAt S t := by
  -- the induction is on the programs of the tasks, of which each pass lowers one
  have hwf := Pi.Lex.wellFounded (fun i j : Fin n => i < j)
    (fun _ => Prog.shrinks_wf (E := E) (α := α))
  generalize hf : (fun i : Fin n => c.tasks i) = f
  induction f using hwf.induction generalizing c with
  | h f ih =>
    subst hf
    by_cases hdone : ∀ t, c.tasks t ≠ none → c.Ended t ∨ c.StuckAt S t
    · exact ⟨[], c, (fun m hm => absurd hm List.not_mem_nil), rfl, hdone⟩
    obtain ⟨t, ht⟩ := not_forall.mp hdone
    obtain ⟨hlive, hnot⟩ := Classical.not_imp.mp ht
    obtain ⟨hnotEnded, hnotStuck⟩ := not_or.mp hnot
    obtain ⟨o, k, hask⟩ : ∃ o k, c.tasks t = some (.ask o k) := by
      obtain ⟨p, hp⟩ := Option.ne_none_iff_exists'.mp hlive
      cases p with
      | ret a => exact absurd (by rw [Ended, result_eq_some.mpr hp]; rfl) hnotEnded
      | ask o k => exact ⟨o, k, hp⟩
    obtain ⟨e, c₁, u, i, c₂, htick, hpassed, hi⟩ :=
      hpass c t o k hI hask fun hS => hnotStuck ⟨o, k, hask, hS⟩
    have htasks := tick_tasks htick
    obtain ⟨hdown, hother, q, hq⟩ := pass_shrinks hpassed
    rw [htasks] at hdown hother
    have hu : u < n := by
      cases hcu : c.tasks u with
      | none =>
        rw [hcu, hq] at hdown
        exact hdown.elim
      | some p => exact hn u p hcu
    have hn₂ : c₂.Within n := by
      intro v p hv
      by_cases hvu : v = u
      · exact hvu ▸ hu
      · exact hn v p (hother v hvu ▸ hv)
    obtain ⟨ms, c', hms, hrun, hall⟩ := ih (fun j : Fin n => c₂.tasks j)
      ⟨⟨u, hu⟩, fun j hj => hother j (fun h => (Nat.ne_of_lt hj) h), hdown⟩
      c₂ (hstep _ _ _ (hstep _ _ _ hI htick) hpassed) hn₂ rfl
    refine ⟨.tick e :: .pass u i :: ms, c', ?_, ?_, fun v hv => hall v ?_⟩
    · intro m hm
      rcases List.mem_cons.mp hm with rfl | hm
      · trivial
      · rcases List.mem_cons.mp hm with rfl | hm
        · exact hi
        · exact hms m hm
    · simp only [run, htick, hpassed, hrun]
    · by_cases hvu : v = u
      · rw [hvu, hq]
        exact Option.some_ne_none q
      · rwa [hother v hvu]

end Config

/-! ## 4. Tasks that keep to a protocol

The stages of the tasks are no part of the world.  `At` assigns one to each task, and a run keeps
this up: the task that moves goes to its next stage, and the others stay where they are, for what a
stage says of the world is not disturbed by other tasks. -/

/-- What the stages of a protocol say about the world of a machine. -/
structure Agreement (M : Machine E) (P : Protocol E) where
  /-- The world is as a task at this stage expects. -/
  agrees : (t : Nat) → P.Stage → M.World → Prop
  /-- Two tasks can be at these stages at once. -/
  apart : P.Stage → P.Stage → Prop
  /-- A task at this stage has nothing in hand. -/
  idle : P.Stage → Prop
  apart_symm : ∀ {s s'}, apart s s' → apart s' s
  own : ∀ {t s o i w a w'}, agrees t s w → P.allows s o → M.exec t o i w = some (a, w') →
    agrees t (P.next s o a) w'
  other : ∀ {t u s s' o i w a w'}, agrees t s w → P.allows s o → M.exec t o i w = some (a, w') →
    u ≠ t → agrees u s' w → apart s s' → agrees u s' w' ∧ apart (P.next s o a) s'
  tick : ∀ {t s e w w'}, M.tick e w = some w' → agrees t s w → agrees t s w'
  drop_own : ∀ {t s w}, agrees t s w →
    ∃ s', idle s' ∧ agrees t s' (M.drop t w) ∧ ∀ s'', apart s s'' → apart s' s''
  drop_other : ∀ {t u s w}, u ≠ t → agrees u s w → agrees u s (M.drop t w)

namespace Agreement

variable {M : Machine E} {P : Protocol E} (A : Agreement M P)

/-- The task has reached this stage, from which it returns as `Q` says: an idle one, if it was
dropped or was never there. -/
def At (Q : P.Stage → α → Prop) (c : Config M α) (t : Nat) (s : P.Stage) : Prop :=
  A.agrees t s c.world ∧ match c.tasks t with
    | none => A.idle s
    | some p => p.Keeps P Q s

/-- All tasks are at stages of the protocol that go together. -/
def Orderly (Q : P.Stage → α → Prop) (c : Config M α) : Prop :=
  ∃ stage : Nat → P.Stage, (∀ t, A.At Q c t (stage t)) ∧
    ∀ t u, u ≠ t → A.apart (stage t) (stage u)

variable {A} {Q : P.Stage → α → Prop}

/-- The program that is left keeps to the protocol from the stage on. -/
theorem At.keeps {c : Config M α} {t : Nat} {s : P.Stage} {p : Prog E α} (h : A.At Q c t s)
    (ht : c.tasks t = some p) : p.Keeps P Q s := by
  have hk := h.2
  rwa [ht] at hk

/-- What the block of a task does to its stage and to those of the others. -/
theorem settle_at {t : Nat} {s : P.Stage} {p q : Prog E α} {w w' : M.World} (ha : A.agrees t s w)
    (hp : p.Keeps P Q s) (h : M.settle t p w = some (q, w')) :
    ∃ s', A.agrees t s' w' ∧ q.Keeps P Q s' ∧
      ∀ u su, u ≠ t → A.agrees u su w → A.apart s su → A.agrees u su w' ∧ A.apart s' su := by
  induction p generalizing s w with
  | ret a =>
    cases h
    exact ⟨s, ha, hp, fun u su _ hu hapart => ⟨hu, hapart⟩⟩
  | ask o k ih =>
    unfold Machine.settle at h
    split at h
    · cases h
      exact ⟨s, ha, hp, fun u su _ hu hapart => ⟨hu, hapart⟩⟩
    · split at h
      · rename_i x w₁ he
        obtain ⟨s', hs', hq, hothers⟩ := ih x (A.own ha hp.1 he) (hp.2 x) h
        refine ⟨s', hs', hq, fun u su hu hsu hapart => ?_⟩
        obtain ⟨hsu₁, hapart₁⟩ := A.other ha hp.1 he hu hsu hapart
        exact hothers u su hu hsu₁ hapart₁
      · cases h

/-- **One move keeps the order.** -/
theorem Orderly.next {c c' : Config M α} {m : Move M} (h : A.Orderly Q c)
    (hm : c.next m = some c') : A.Orderly Q c' := by
  obtain ⟨stage, hat, hapart⟩ := h
  have hkeep : ∀ {u s}, c'.tasks u = c.tasks u → A.agrees u s c'.world → A.At Q c u s →
      A.At Q c' u s := by
    intro u s htask hagree h
    exact ⟨hagree, by rw [htask]; exact h.2⟩
  -- one task is at a new stage, and the others stay where they are
  have hmove : ∀ {t s}, A.At Q c' t s →
      (∀ u, u ≠ t → A.At Q c' u (stage u) ∧ A.apart s (stage u)) → A.Orderly Q c' := by
    intro t s hself hothers
    refine ⟨Function.update stage t s, fun u => ?_, fun u v hvu => ?_⟩
    · by_cases hu : u = t
      · subst hu
        rwa [Function.update_self]
      · rw [Function.update_of_ne hu]
        exact (hothers u hu).1
    · by_cases hu : u = t
      · subst hu
        rw [Function.update_self, Function.update_of_ne hvu]
        exact (hothers v hvu).2
      · rw [Function.update_of_ne hu]
        by_cases hv : v = t
        · subst hv
          rw [Function.update_self]
          exact A.apart_symm (hothers u hu).2
        · rw [Function.update_of_ne hv]
          exact hapart u v hvu
  rcases Config.next_cases hm with ⟨t, i, o, k, a, w, q, rfl, ht, he, hset, htasks⟩ |
    ⟨e, rfl, he, htasks⟩ | ⟨t, o, k, rfl, ht, hw, htasks⟩
  · have hkeeps := (hat t).keeps ht
    obtain ⟨s', hs', hq, hothers⟩ := settle_at (A.own (hat t).1 hkeeps.1 he) (hkeeps.2 a) hset
    refine hmove (t := t) (s := s') ⟨hs', by rw [htasks, Function.update_self]; exact hq⟩
      fun u hu => ?_
    obtain ⟨hagree, hap⟩ := A.other (hat t).1 hkeeps.1 he hu (hat u).1 (hapart t u hu)
    obtain ⟨hagree', hap'⟩ := hothers u _ hu hagree hap
    exact ⟨hkeep (by rw [htasks, Function.update_of_ne hu]) hagree' (hat u), hap'⟩
  · exact ⟨stage, fun u => hkeep (by rw [htasks]) (A.tick he (hat u).1) (hat u), hapart⟩
  · obtain ⟨s', hidle, hagree, hap⟩ := A.drop_own (hat t).1
    refine hmove (t := t) (s := s')
      ⟨hw ▸ hagree, by rw [htasks, Function.update_self]; exact hidle⟩ fun u hu => ?_
    exact ⟨
      hkeep (by rw [htasks, Function.update_of_ne hu]) (hw ▸ A.drop_other hu (hat u).1) (hat u),
      hap _ (hapart t u hu)⟩

/-- **Every run keeps the order.** -/
theorem Orderly.run {ms : List (Move M)} {c c' : Config M α} (h : A.Orderly Q c)
    (hr : c.run ms = some c') : A.Orderly Q c' :=
  Config.run_induct (P := fun c => A.Orderly Q c) (fun _ _ _ hc hm => hc.next hm) ms c c' h hr

/-- The world at the end of a run agrees with a stage of each task. -/
theorem Orderly.exists_agrees {c : Config M α} (h : A.Orderly Q c) (t : Nat) :
    ∃ s, A.agrees t s c.world := by
  obtain ⟨stage, hat, -⟩ := h
  exact ⟨stage t, (hat t).1⟩

/-- A task that has returned is at a stage that its result goes with. -/
theorem Orderly.result {c : Config M α} (h : A.Orderly Q c) {t : Nat} {a : α}
    (ha : c.result t = some a) : ∃ s, A.agrees t s c.world ∧ Q s a := by
  obtain ⟨stage, hat, -⟩ := h
  exact ⟨stage t, (hat t).1, (hat t).keeps (Config.result_eq_some.mp ha)⟩

end Agreement

/-! ## 5. Locks in order

The argument of the lock hierarchy: the task that waits at the highest rank waits for nobody. -/

/-- An agreement under which operations wait in an order. -/
structure LockOrder (M : Machine E) (P : Protocol E) extends Agreement M P where
  /-- The rank of what an operation waits for; the highest one is that of no wait. -/
  rank : E.Op → Nat
  top : Nat
  rank_le : ∀ o, rank o ≤ top
  /-- The environment can always move. -/
  moves : ∀ w, ∃ e w', M.tick e w = some w'
  /-- Between two awaits nothing waits. -/
  sync : ∀ {t s o w}, agrees t s w → P.allows s o → M.await o = false →
    ∃ r, M.exec t o M.go w = some r
  /-- What an operation waits for is not there. -/
  absent : E.Op → M.World → Prop
  rank_absent : ∀ {o w}, absent o w → rank o = 0
  /-- The inputs with which the tasks can go on. -/
  gives : M.In → Prop
  gives_go : gives M.go
  /-- At an await, time lets the operation be made, or it waits for a task with something in hand,
  which may only be suspended at an operation of a higher rank, or for what is not there. -/
  ready : ∀ {t s o w}, agrees t s w → P.allows s o → M.await o = true →
    (∃ e w₁ i r, M.tick e w = some w₁ ∧ M.exec t o i w₁ = some r ∧ gives i) ∨
    (∃ u, ∀ s', agrees u s' w → ¬ idle s' ∧
      ∀ o', P.allows s' o' → M.await o' = true → rank o < rank o') ∨ absent o w

namespace LockOrder

variable {M : Machine E} {P : Protocol E} {L : LockOrder M P} {Q : P.Stage → α → Prop}

/-- The block of a task can be run. -/
theorem exists_settle {t : Nat} {s : P.Stage} {p : Prog E α} {w : M.World} (ha : L.agrees t s w)
    (hp : p.Keeps P Q s) : ∃ q w', M.settle t p w = some (q, w') := by
  induction p generalizing s w with
  | ret a => exact ⟨_, _, rfl⟩
  | ask o k ih =>
    cases ho : M.await o with
    | true => exact ⟨_, _, M.settle_await ho⟩
    | false =>
      obtain ⟨⟨x, w₁⟩, he⟩ := L.sync ha hp.1 ho
      obtain ⟨q, w', hq⟩ := ih x (L.own ha hp.1 he) (hp.2 x)
      exact ⟨q, w', by rw [M.settle_sync ho he]; exact hq⟩

/-- A task whose operation can be made after a move of the environment passes it. -/
theorem exists_pass_of_exec {c : Config M α} {t : Nat} {s : P.Stage} {o : E.Op}
    {k : E.Ans o → Prog E α} (h : L.At Q c t s) (ht : c.tasks t = some (.ask o k)) {e : M.Env}
    {w₁ : M.World} {i : M.In} {r : E.Ans o × M.World} (htick : M.tick e c.world = some w₁)
    (he : M.exec t o i w₁ = some r) (hi : L.gives i) : c.CanPass L.gives := by
  have hkeeps := h.keeps ht
  obtain ⟨a, w₂⟩ := r
  obtain ⟨q, w₃, hq⟩ := exists_settle (L.own (L.tick htick h.1) hkeeps.1 he) (hkeeps.2 a)
  refine ⟨e, ⟨w₁, c.tasks⟩, t, i, ⟨w₃, Function.update c.tasks t (some q)⟩, ?_, ?_, hi⟩
  · simp only [Config.next, htick]
  · simp only [Config.next, ht, he, hq]

/-- **No deadlock.**  If a task has not returned, and what it waits for is there, then some task can
go on. -/
theorem exists_pass (hQ : ∀ s a, Q s a → L.idle s) {c : Config M α} (h : L.Orderly Q c) {t : Nat}
    {o : E.Op} {k : E.Ans o → Prog E α} (ht : c.tasks t = some (.ask o k))
    (hthere : ¬ L.absent o c.world) : c.CanPass L.gives := by
  obtain ⟨stage, hat, -⟩ := h
  have hsync : ∀ {u o' k'}, c.tasks u = some (.ask o' k') → M.await o' = false →
      c.CanPass L.gives := by
    intro u o' k' hu ho'
    obtain ⟨e, w₁, htick⟩ := L.moves c.world
    obtain ⟨r, he⟩ := L.sync (L.tick htick (hat u).1) ((hat u).keeps hu).1 ho'
    exact exists_pass_of_exec (hat u) hu htick he L.gives_go
  -- a task that waits leads to one whose operation has a higher rank
  generalize hr : L.top - L.rank o = r
  induction r using Nat.strong_induction_on generalizing t o with
  | h r ih =>
    cases hawait : M.await o with
    | false => exact hsync ht hawait
    | true =>
      rcases L.ready (hat t).1 ((hat t).keeps ht).1 hawait with
        ⟨e, w₁, i, r, htick, he, hi⟩ | ⟨u, hu⟩ | habsent
      · exact exists_pass_of_exec (hat t) ht htick he hi
      · obtain ⟨hbusy, hhigher⟩ := hu (stage u) (hat u).1
        have hu := (hat u).2
        cases hcu : c.tasks u with
        | none =>
          rw [hcu] at hu
          exact absurd hu hbusy
        | some p =>
          rw [hcu] at hu
          cases p with
          | ret a => exact absurd (hQ _ a hu) hbusy
          | ask o' k' =>
            cases hawait' : M.await o' with
            | false => exact hsync hcu hawait'
            | true =>
              have hlt := hhigher o' hu.1 hawait'
              have hle := L.rank_le o'
              refine ih (L.top - L.rank o') (by omega) hcu (fun habsent => ?_) rfl
              rw [L.rank_absent habsent] at hlt
              exact Nat.not_lt_zero _ hlt
      · exact absurd habsent hthere

/-- **Everything that was started can be finished**: from the configuration that any run reaches,
every task that was not dropped can return, without dropping another one, unless what it waits for
is not there. -/
theorem exists_ended (hQ : ∀ s a, Q s a → L.idle s) {n : Nat} {ms : List (Move M)}
    {c c' : Config M α} (h : L.Orderly Q c) (hn : c.Within n) (hr : c.run ms = some c') :
    ∃ ms' c'', (∀ m ∈ ms', Config.Goes L.gives m) ∧ c'.run ms' = some c'' ∧
      ∀ t, c'.tasks t ≠ none → c''.Ended t ∨ c''.StuckAt L.absent t :=
  Config.exists_run_ended (I := fun c => L.Orderly Q c) (fun _ _ _ hc hm => hc.next hm)
    (fun _ _ _ _ hc ht hthere => exists_pass hQ hc ht hthere) c' (h.run hr) (hn.run hr)

end LockOrder

end Interact

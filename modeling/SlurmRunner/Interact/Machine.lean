/-
# Machines: what the operations do, and the runs of several tasks

A `Machine` gives the operations of a signature their meaning on a world: `exec` answers one
operation of one task.  Some operations are AWAITS: a task that reaches one may be suspended
there for any length of time, while other tasks run and the environment moves.  Everything
between two awaits is one uninterrupted block.

Two kinds of run are defined over this.

* `Config.run` interleaves any number of tasks at their awaits.  One move lets one suspended
  task make its awaited operation and go on to its next await (`settle`), lets the environment
  move, or drops a suspended task for good.
* `Machine.call` runs one program alone to its end; the environment may still move whenever the
  program is suspended.

Both are functions of a list of moves, so a run on concrete moves can be evaluated, and "for
every run" is "for every list of moves".
-/
import Mathlib.Algebra.GroupWithZero.Nat
import Mathlib.Logic.Function.Basic
import SlurmRunner.Interact.Prog

namespace Interact

/-! ## 1. Machines

A machine carries out the operations of a signature on a world.  An operation that awaits ends the
step of its task; the other ones are done silently, in one go with what comes before them
(`settle`). -/

/-- The meaning of a signature.  `In` is what the surroundings supply to one operation, `go` the
input of an operation that needs none; `Env` are the moves of the environment. -/
structure Machine (E : Sig) where
  World : Type
  In : Type
  go : In
  Env : Type
  /-- The operations at which a task may be suspended. -/
  await : E.Op → Bool
  /-- Task `t` makes operation `o`; `none` where it cannot proceed (yet). -/
  exec : (t : Nat) → (o : E.Op) → In → World → Option (E.Ans o × World)
  tick : Env → World → Option World
  /-- What is left of the world when the suspended task `t` is dropped. -/
  drop : (t : Nat) → World → World

namespace Machine

variable {E : Sig} (M : Machine E) {α : Type}

/-- The program has returned or is about to make an awaited operation. -/
def Suspended : Prog E α → Prop
  | .ret _ => True
  | .ask o _ => M.await o = true

/-- Run the operations of `p` up to its next await. -/
def settle (t : Nat) : Prog E α → M.World → Option (Prog E α × M.World)
  | .ret a, w => some (.ret a, w)
  | .ask o k, w =>
    if M.await o then some (.ask o k, w)
    else match M.exec t o M.go w with
      | some (a, w') => settle t (k a) w'
      | none => none

/-- At an await a program stays where it is. -/
theorem settle_await {t : Nat} {o : E.Op} {k : E.Ans o → Prog E α} {w : M.World}
    (ho : M.await o = true) : M.settle t (.ask o k) w = some (.ask o k, w) := by
  rw [settle, if_pos ho]

/-- A silent operation is carried out. -/
theorem settle_sync {t : Nat} {o : E.Op} {k : E.Ans o → Prog E α} {w w' : M.World} {a : E.Ans o}
    (ho : M.await o = false) (he : M.exec t o M.go w = some (a, w')) :
    M.settle t (.ask o k) w = M.settle t (k a) w' := by
  rw [settle, if_neg (by simp [ho]), he]

/-- A program that has settled is at an await, or it has returned. -/
theorem settle_suspended {t : Nat} {p p' : Prog E α} {w w' : M.World}
    (h : M.settle t p w = some (p', w')) : M.Suspended p' := by
  induction p generalizing w with
  | ret a =>
    simp only [settle, Option.some.injEq, Prod.mk.injEq] at h
    rw [← h.1]
    trivial
  | ask o k ih =>
    unfold settle at h
    split at h
    · rename_i ho
      simp only [Option.some.injEq, Prod.mk.injEq] at h
      rw [← h.1]
      exact ho
    · split at h
      · exact ih _ h
      · exact absurd h (by simp)

/-- What the operations in `S` do to the world, the block of a program that uses only these does. -/
theorem settle_frame {t : Nat} {S : E.Op → Prop} {F : M.World → M.World → Prop}
    (hrefl : ∀ w, F w w) (htrans : ∀ {w w' w''}, F w w' → F w' w'' → F w w'')
    (hstep : ∀ {o i w a w'}, S o → M.exec t o i w = some (a, w') → F w w')
    {p p' : Prog E α} {w w' : M.World} (hp : p.Uses S) (h : M.settle t p w = some (p', w')) :
    p'.Uses S ∧ F w w' := by
  induction p generalizing w with
  | ret a =>
    simp only [settle, Option.some.injEq, Prod.mk.injEq] at h
    obtain ⟨rfl, rfl⟩ := h
    exact ⟨hp, hrefl w⟩
  | ask o k ih =>
    unfold settle at h
    split at h
    · simp only [Option.some.injEq, Prod.mk.injEq] at h
      obtain ⟨rfl, rfl⟩ := h
      exact ⟨hp, hrefl w⟩
    · split at h
      · rename_i a w₁ he
        obtain ⟨hp', hF⟩ := ih a (hp.2 a) h
        exact ⟨hp', htrans (hstep hp.1 he) hF⟩
      · exact absurd h (by simp)

/-- Run `p` alone as task `t`.  The moves are read in order: an input for the next operation,
or a move of the environment while the program is suspended. -/
def call (t : Nat) : Prog E α → List (M.In ⊕ M.Env) → M.World → Option (α × M.World)
  | .ret a, [], w => some (a, w)
  | .ask o k, .inl i :: ms, w =>
    match M.exec t o i w with
    | some (a, w') => call t (k a) ms w'
    | none => none
  | .ask o k, .inr e :: ms, w =>
    if M.await o then
      match M.tick e w with
      | some w' => call t (.ask o k) ms w'
      | none => none
    else none
  | _, _, _ => none

/-- A call makes its next operation after moves of the environment, which stay inside `R`. -/
theorem call_ask {t : Nat} {o : E.Op} {k : E.Ans o → Prog E α} {R : M.World → M.World → Prop}
    (hrefl : ∀ w, R w w) (htick : ∀ {e w w₁ w₂}, M.tick e w = some w₁ → R w₁ w₂ → R w w₂)
    {b : α} {w' : M.World} :
    ∀ {ms : List (M.In ⊕ M.Env)} {w : M.World}, M.call t (.ask o k) ms w = some (b, w') →
      ∃ i ms' w₁ a w₂, R w w₁ ∧ M.exec t o i w₁ = some (a, w₂) ∧
        M.call t (k a) ms' w₂ = some (b, w')
  | [], w, h => by cases h
  | .inl i :: ms, w, h => by
    simp only [call] at h
    split at h
    · rename_i a w₂ he
      exact ⟨i, ms, w, a, w₂, hrefl w, he, h⟩
    · cases h
  | .inr e :: ms, w, h => by
    simp only [call] at h
    split at h
    · split at h
      · rename_i w₁ ht
        obtain ⟨i, ms', w₂, a, w₃, hR, he, hcall⟩ := call_ask hrefl htick h
        exact ⟨i, ms', w₂, a, w₃, htick ht hR, he, hcall⟩
      · cases h
    · cases h

/-- A program that has returned makes no move. -/
theorem call_ret {t : Nat} {a b : α} {ms : List (M.In ⊕ M.Env)} {w w' : M.World}
    (h : M.call t (.ret a : Prog E α) ms w = some (b, w')) : b = a ∧ w' = w := by
  cases ms with
  | nil =>
    cases h
    exact ⟨rfl, rfl⟩
  | cons m ms => cases h

/-- A run of one program and then another, in its two parts. -/
theorem call_bind {β : Type} {t : Nat} {f : α → Prog E β} {b : β} {w' : M.World} :
    ∀ {ms : List (M.In ⊕ M.Env)} {p : Prog E α} {w : M.World},
      M.call t (p >>= f) ms w = some (b, w') → ∃ ms₁ ms₂ a w₁, ms = ms₁ ++ ms₂ ∧
        M.call t p ms₁ w = some (a, w₁) ∧ M.call t (f a) ms₂ w₁ = some (b, w')
  | ms, .ret a, w, h => ⟨[], ms, a, w, rfl, rfl, h⟩
  | [], .ask o k, w, h => by cases h
  | .inl i :: ms, .ask o k, w, h => by
    simp only [Prog.ask_bind, call] at h
    split at h
    · rename_i x w₂ he
      obtain ⟨ms₁, ms₂, a, w₁, rfl, h₁, h₂⟩ := call_bind h
      exact ⟨.inl i :: ms₁, ms₂, a, w₁, rfl, by simp only [call, he]; exact h₁, h₂⟩
    · cases h
  | .inr e :: ms, .ask o k, w, h => by
    simp only [Prog.ask_bind, call] at h
    split at h
    · rename_i ho
      split at h
      · rename_i w₂ ht
        obtain ⟨ms₁, ms₂, a, w₁, rfl, h₁, h₂⟩ := call_bind (p := .ask o k) h
        exact ⟨.inr e :: ms₁, ms₂, a, w₁, rfl, by simp only [call, ht, if_pos ho]; exact h₁, h₂⟩
      · cases h
    · cases h

/-- `p`, run alone, can return, and whenever it does, `q` holds. -/
def Returns (t : Nat) (p : Prog E α) (w : M.World) (q : α → M.World → Prop) : Prop :=
  (∃ ms a w', M.call t p ms w = some (a, w')) ∧
    ∀ ms a w', M.call t p ms w = some (a, w') → q a w'

/-- A program whose operations can always be made returns. -/
theorem exists_call_of_uses {t : Nat} {p : Prog E α}
    (hp : p.Uses fun o => ∀ w, ∃ i r, M.exec t o i w = some r) (w : M.World) :
    ∃ ms a w', M.call t p ms w = some (a, w') := by
  induction p generalizing w with
  | ret a => exact ⟨[], a, w, rfl⟩
  | ask o k ih =>
    obtain ⟨ho, hk⟩ := hp
    obtain ⟨i, ⟨x, w₁⟩, he⟩ := ho w
    obtain ⟨ms, a, w', hcall⟩ := ih x (hk x) w₁
    refine ⟨.inl i :: ms, a, w', ?_⟩
    rw [call, he]
    exact hcall

/-- What a call on concrete moves reaches, from its evaluation. -/
theorem exists_call {t : Nat} {p : Prog E α} {ms : List (M.In ⊕ M.Env)} {w : M.World}
    {q : α → M.World → Prop} [∀ a w', Decidable (q a w')]
    (h : ((M.call t p ms w).any fun r => decide (q r.1 r.2)) = true) :
    ∃ a w', M.call t p ms w = some (a, w') ∧ q a w' := by
  obtain ⟨⟨a, w'⟩, hr, hq⟩ := (Option.any_eq_true _ _).mp h
  exact ⟨a, w', hr, of_decide_eq_true hq⟩

/-- Run the programs of the given requests alone, one after another, each with its own moves. -/
def serve {β : Type} (t : Nat) (program : β → Prog E α) :
    List (β × List (M.In ⊕ M.Env)) → M.World → Option (List α × M.World)
  | [], w => some ([], w)
  | (b, ms) :: rest, w =>
    match M.call t (program b) ms w with
    | some (a, w') => (serve t program rest w').map fun r => (a :: r.1, r.2)
    | none => none

/-- What a session on concrete moves reaches, from its evaluation. -/
theorem exists_serve {β : Type} {t : Nat} {program : β → Prog E α}
    {steps : List (β × List (M.In ⊕ M.Env))} {w : M.World} {p : List α → M.World → Prop}
    [∀ as w', Decidable (p as w')]
    (h : ((M.serve t program steps w).any fun r => decide (p r.1 r.2)) = true) :
    ∃ as w', M.serve t program steps w = some (as, w') ∧ p as w' := by
  obtain ⟨⟨as, w'⟩, hr, hp⟩ := (Option.any_eq_true _ _).mp h
  exact ⟨as, w', hr, of_decide_eq_true hp⟩

/-- Every request that is served satisfies `P` in the world in which it starts. -/
def Meets {β : Type} (t : Nat) (program : β → Prog E α) (P : M.World → β → Prop) :
    List (β × List (M.In ⊕ M.Env)) → M.World → Prop
  | [], _ => True
  | (b, ms) :: rest, w =>
    P w b ∧ match M.call t (program b) ms w with
      | some (_, w') => Meets t program P rest w'
      | none => True

/-- A condition on every step in every world is met in every run. -/
theorem meets_of_forall {β : Type} {t : Nat} {program : β → Prog E α} {P : M.World → β → Prop}
    {steps : List (β × List (M.In ⊕ M.Env))} (h : ∀ s ∈ steps, ∀ w, P w s.1) (w : M.World) :
    M.Meets t program P steps w := by
  induction steps generalizing w with
  | nil => trivial
  | cons s rest ih =>
    obtain ⟨b, ms⟩ := s
    refine ⟨h _ List.mem_cons_self w, ?_⟩
    split
    · exact ih (fun s hs => h s (List.mem_cons_of_mem _ hs)) _
    · trivial

/-- **What every call keeps**, if it starts in a world as `P` says, holds at the end of every such
session. -/
theorem serve_induct {β : Type} {t : Nat} {program : β → Prog E α} {P : M.World → β → Prop}
    {J : M.World → Prop} (hstep : ∀ b ms w a w', J w → P w b →
      M.call t (program b) ms w = some (a, w') → J w')
    {steps : List (β × List (M.In ⊕ M.Env))} {w : M.World} {as : List α} {w' : M.World}
    (hJ : J w) (hP : M.Meets t program P steps w) (hs : M.serve t program steps w = some (as, w')) :
    J w' := by
  induction steps generalizing w as with
  | nil =>
    cases hs
    exact hJ
  | cons s rest ih =>
    obtain ⟨b, ms⟩ := s
    obtain ⟨hb, hrest⟩ := hP
    simp only [serve] at hs
    split at hs
    · rename_i a w₁ hcall
      rw [hcall] at hrest
      obtain ⟨⟨as', w₂⟩, hs', he⟩ := Option.map_eq_some_iff.mp hs
      cases he
      exact ih (hstep b ms w a w₁ hJ hb hcall) hrest hs'
    · cases hs

end Machine

/-! ## 2. Configurations and runs

Several tasks on one world.  A move is one step of one task with an input from its surroundings, a
tick of the surroundings, or the end of a task that is dropped at an await. -/

/-- A world and the tasks running in it; `none` is a task that was dropped. -/
structure Config {E : Sig} (M : Machine E) (α : Type) where
  world : M.World
  tasks : Nat → Option (Prog E α)

/-- One move of a run: task `t` passes its await with input `i`, the environment moves, or the
suspended task `t` is dropped. -/
inductive Move {E : Sig} (M : Machine E) where
  | pass (t : Nat) (i : M.In)
  | tick (e : M.Env)
  | drop (t : Nat)

/-- The task that a move is of. -/
def Move.task {E : Sig} {M : Machine E} : Move M → Option Nat
  | .pass t _ | .drop t => some t
  | .tick _ => none

namespace Config

variable {E : Sig} {M : Machine E} {α : Type}

/-- The configuration after a move, `none` where the move is not possible. -/
def next (c : Config M α) : Move M → Option (Config M α)
  | .pass t i =>
    match c.tasks t with
    | some (.ask o k) =>
      match M.exec t o i c.world with
      | some (a, w) =>
        match M.settle t (k a) w with
        | some (p, w') => some ⟨w', Function.update c.tasks t (some p)⟩
        | none => none
      | none => none
    | _ => none
  | .tick e =>
    match M.tick e c.world with
    | some w => some ⟨w, c.tasks⟩
    | none => none
  | .drop t =>
    match c.tasks t with
    | some (.ask _ _) => some ⟨M.drop t c.world, Function.update c.tasks t none⟩
    | _ => none

/-- The configuration after a list of moves. -/
def run : List (Move M) → Config M α → Option (Config M α)
  | [], c => some c
  | m :: ms, c =>
    match c.next m with
    | some c' => run ms c'
    | none => none

/-- What a run on concrete moves reaches, from its evaluation. -/
theorem exists_run {c : Config M α} {ms : List (Move M)} {p : Config M α → Prop}
    [DecidablePred p] (h : ((c.run ms).any fun c' => decide (p c')) = true) :
    ∃ c', c.run ms = some c' ∧ p c' := by
  obtain ⟨c', hc', hp⟩ := (Option.any_eq_true _ _).mp h
  exact ⟨c', hc', of_decide_eq_true hp⟩

/-- What task `t` has returned. -/
def result (c : Config M α) (t : Nat) : Option α :=
  match c.tasks t with
  | some (.ret a) => some a
  | _ => none

/-- A task has a result exactly if its program has returned. -/
theorem result_eq_some {c : Config M α} {t : Nat} {a : α} :
    c.result t = some a ↔ c.tasks t = some (.ret a) := by
  unfold result
  rcases c.tasks t with _ | _ | _ <;> simp

/-- Task `t` has returned. -/
abbrev Ended (c : Config M α) (t : Nat) : Prop := (c.result t).isSome = true

/-- Every task is suspended: so a run starts, and so every move leaves it. -/
def Settled (c : Config M α) : Prop :=
  ∀ t p, c.tasks t = some p → M.Suspended p

/-- What a move can do to a configuration: the one fact every invariant of runs starts from. -/
theorem next_cases {c c' : Config M α} {m : Move M} (h : c.next m = some c') :
    (∃ t i o k a w p, m = .pass t i ∧ c.tasks t = some (.ask o k) ∧
      M.exec t o i c.world = some (a, w) ∧ M.settle t (k a) w = some (p, c'.world) ∧
      c'.tasks = Function.update c.tasks t (some p)) ∨
    (∃ e, m = .tick e ∧ M.tick e c.world = some c'.world ∧ c'.tasks = c.tasks) ∨
    (∃ t o k, m = .drop t ∧ c.tasks t = some (.ask o k) ∧ c'.world = M.drop t c.world ∧
      c'.tasks = Function.update c.tasks t none) := by
  cases m with
  | pass t i =>
    simp only [next] at h
    split at h
    · rename_i o k hk
      split at h
      · rename_i a w hw
        split at h
        · rename_i p w' hp
          cases h
          exact .inl ⟨t, i, o, k, a, w, p, rfl, hk, hw, hp, rfl⟩
        · cases h
      · cases h
    · cases h
  | tick e =>
    simp only [next] at h
    split at h
    · rename_i w hw
      cases h
      exact .inr (.inl ⟨e, rfl, hw, rfl⟩)
    · cases h
  | drop t =>
    simp only [next] at h
    split at h
    · rename_i o k hk
      cases h
      exact .inr (.inr ⟨t, o, k, rfl, hk, rfl, rfl⟩)
    · cases h

/-- An invariant that every move keeps holds at the end of every run. -/
theorem run_induct {P : Config M α → Prop}
    (hstep : ∀ c m c', P c → c.next m = some c' → P c') :
    ∀ (ms : List (Move M)) (c c' : Config M α), P c → c.run ms = some c' → P c'
  | [], c, c', hc, h => by
    simp only [run, Option.some.injEq] at h
    exact h ▸ hc
  | m :: ms, c, c', hc, h => by
    simp only [run] at h
    split at h
    · rename_i c₁ h₁
      exact run_induct hstep ms c₁ c' (hstep c m c₁ hc h₁) h
    · cases h

/-- A task keeps to the operations that its program uses. -/
theorem run_uses {S : Nat → E.Op → Prop} {ms : List (Move M)} {c c' : Config M α}
    (hc : ∀ t p, c.tasks t = some p → p.Uses (S t)) (hr : c.run ms = some c') :
    ∀ t p, c'.tasks t = some p → p.Uses (S t) := by
  refine run_induct (P := fun c => ∀ t p, c.tasks t = some p → p.Uses (S t))
    (fun c m c' hc hm => ?_) ms c c' hc hr
  have hkeep : ∀ {t x}, c'.tasks = Function.update c.tasks t x → ∀ u p, u ≠ t →
      c'.tasks u = some p → p.Uses (S u) := by
    intro t x htasks u p hu hp
    rw [htasks, Function.update_of_ne hu] at hp
    exact hc u p hp
  rcases next_cases hm with ⟨t, i, o, k, a, w, q, -, ht, -, hset, htasks⟩ |
    ⟨e, -, -, htasks⟩ | ⟨t, o, k, -, -, -, htasks⟩
  · intro u p hp
    by_cases hu : u = t
    · subst hu
      rw [htasks, Function.update_self, Option.some.injEq] at hp
      exact hp ▸ (M.settle_frame (F := fun _ _ => True) (fun _ => trivial)
        (fun _ _ => trivial) (fun _ _ => trivial) ((hc u _ ht).2 a) hset).1
    · exact hkeep htasks u p hu hp
  · intro u p hp
    exact hc u p (htasks ▸ hp)
  · intro u p hp
    by_cases hu : u = t
    · subst hu
      rw [htasks, Function.update_self] at hp
      cases hp
    · exact hkeep htasks u p hu hp

/-- What the operations of a task do to the world, one of its moves does. -/
theorem pass_frame {t : Nat} {i : M.In} {S : E.Op → Prop} {F : M.World → M.World → Prop}
    (hrefl : ∀ w, F w w) (htrans : ∀ {w w' w''}, F w w' → F w' w'' → F w w'')
    (hstep : ∀ {o i w a w'}, S o → M.exec t o i w = some (a, w') → F w w')
    {c c' : Config M α} (hc : ∀ p, c.tasks t = some p → p.Uses S)
    (hm : c.next (.pass t i) = some c') : F c.world c'.world := by
  rcases next_cases hm with ⟨u, j, o, k, a, w, q, hmove, ht, he, hset, -⟩ | ⟨e, hmove, -⟩ |
    ⟨u, o, k, hmove, -⟩
  · cases hmove
    obtain ⟨ho, hk⟩ := hc _ ht
    exact htrans (hstep ho he) (M.settle_frame hrefl htrans hstep (hk a) hset).2
  · cases hmove
  · cases hmove

/-- What a move may add to a quantity, where an operation with input `i` may add `g i`. -/
def cost (g : M.In → Nat) : Move M → Nat
  | .pass _ i => g i
  | _ => 0

section Cost

variable {f : M.World → Nat} {g : M.In → Nat} (hgo : g M.go = 0)
  (hexec : ∀ {t o i w a w'}, M.exec t o i w = some (a, w') → f w' ≤ f w + g i)
include hgo hexec

/-- Between two awaits nothing is added. -/
theorem settle_le {t : Nat} {p q : Prog E α} {w w' : M.World}
    (h : M.settle t p w = some (q, w')) : f w' ≤ f w := by
  induction p generalizing w with
  | ret a =>
    cases h
    exact Nat.le_refl _
  | ask o k ih =>
    unfold Machine.settle at h
    split at h
    · cases h
      exact Nat.le_refl _
    · split at h
      · rename_i a w₁ he
        have hstep := hexec he
        rw [hgo] at hstep
        exact Nat.le_trans (ih a h) hstep
      · cases h

/-- **What a run adds** to a quantity is no more than its moves may add. -/
theorem run_le (htick : ∀ {e w w'}, M.tick e w = some w' → f w' ≤ f w)
    (hdrop : ∀ t w, f (M.drop t w) ≤ f w) {ms : List (Move M)} {c c' : Config M α}
    (hr : c.run ms = some c') : f c'.world ≤ f c.world + (ms.map (cost g)).sum := by
  induction ms generalizing c with
  | nil =>
    cases hr
    exact Nat.le_refl _
  | cons m ms ih =>
    simp only [run] at hr
    split at hr
    · rename_i c₁ hm
      have hrest := ih hr
      have hfirst : f c₁.world ≤ f c.world + cost g m := by
        rcases next_cases hm with ⟨t, i, o, k, a, w, p, rfl, -, he, hset, -⟩ |
          ⟨e, rfl, he, -⟩ | ⟨t, o, k, rfl, -, hw, -⟩
        · exact Nat.le_trans (settle_le hgo hexec hset) (hexec he)
        · exact htick he
        · exact hw ▸ hdrop t c.world
      rw [List.map_cons, List.sum_cons]
      omega
    · cases hr

end Cost

end Config

end Interact

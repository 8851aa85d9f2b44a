/-
# Interaction programs

An asynchronous function is modelled by what it asks of its surroundings and by how it goes
on with each answer.  `Prog E α` is the type of such programs over a signature `E` of
operations: a program has either returned, or it asks one operation and continues with the
answer.  It is the free monad of the signature, so `do` notation writes it, and one program
text serves every meaning that is later given to the operations.

A program is a well-founded tree: along every sequence of answers it returns.  A loop that may
run for ever is written with a bound on its rounds, and what is proved of it holds for every
bound.
-/
import Mathlib.Tactic.TypeStar

namespace Interact

/-! ## 1. Signatures and programs

A program is a tree: it asks for an operation and goes on with each answer that this may have, or it
returns.  So programs are compared by equality, and what holds of all programs is proved by
induction on them. -/

/-- A signature: the operations a program may ask for and the answer each of them gets. -/
structure Sig where
  Op : Type
  Ans : Op → Type

/-- A program over `E` with a result in `α`. -/
inductive Prog (E : Sig) (α : Type) : Type where
  | ret (a : α) : Prog E α
  | ask (o : E.Op) (k : E.Ans o → Prog E α) : Prog E α

namespace Prog

variable {E : Sig} {α β γ : Type}

/-- Run `p`, then go on with its result. -/
def bind : Prog E α → (α → Prog E β) → Prog E β
  | .ret a, f => f a
  | .ask o k, f => .ask o (fun x => (k x).bind f)

instance : Monad (Prog E) where
  pure := .ret
  bind := Prog.bind

/-- The program that asks one operation and returns its answer. -/
def op (o : E.Op) : Prog E (E.Ans o) := .ask o .ret

/-- The laws of a monad, as rules for `simp`: a bind goes through the operations of its first
program down to what this returns. -/
@[simp] theorem pure_def (a : α) : (pure a : Prog E α) = .ret a := rfl

@[simp] theorem ret_bind (a : α) (f : α → Prog E β) : (Prog.ret a >>= f) = f a := rfl

@[simp] theorem ask_bind (o : E.Op) (k : E.Ans o → Prog E α) (f : α → Prog E β) :
    (Prog.ask o k >>= f) = .ask o (fun x => k x >>= f) := rfl

@[simp] theorem op_bind (o : E.Op) (f : E.Ans o → Prog E β) :
    (Prog.op o >>= f) = .ask o f := rfl

/-- A program is followed by nothing. -/
theorem bind_ret (p : Prog E α) : (p >>= Prog.ret) = p := by
  induction p with
  | ret a => rfl
  | ask o k ih =>
    rw [ask_bind]
    exact congrArg (Prog.ask o) (funext ih)

/-- The order in which programs are put together does not matter. -/
theorem bind_assoc (p : Prog E α) (f : α → Prog E β) (g : β → Prog E γ) :
    (p >>= f >>= g) = (p >>= fun a => f a >>= g) := by
  induction p with
  | ret a => rfl
  | ask o k ih =>
    simp only [ask_bind]
    exact congrArg (Prog.ask o) (funext ih)

instance : LawfulMonad (Prog E) :=
  LawfulMonad.mk' (Prog E) (fun p => bind_ret p) (fun _ _ => rfl)
    (fun p f g => bind_assoc p f g)

/-! ## 2. Which operations a program uses

What a program can do at all, whatever it is answered.  `Uses` bounds its operations by a predicate,
`Delays` says how many of them come before a result of a certain kind. -/

/-- Every operation the program can ever ask satisfies `P`. -/
def Uses (P : E.Op → Prop) : Prog E α → Prop
  | .ret _ => True
  | .ask o k => P o ∧ ∀ x, (k x).Uses P

/-- A single operation. -/
theorem uses_op {P : E.Op → Prop} {o : E.Op} (h : P o) : (Prog.op o).Uses P :=
  ⟨h, fun _ => trivial⟩

/-- No operation. -/
theorem uses_ret {P : E.Op → Prop} (a : α) : (Prog.ret a : Prog E α).Uses P := trivial

/-- One program after another. -/
theorem uses_bind {P : E.Op → Prop} {p : Prog E α} {f : α → Prog E β}
    (hp : p.Uses P) (hf : ∀ a, (f a).Uses P) : (p >>= f).Uses P := by
  induction p with
  | ret a => exact hf a
  | ask o k ih => exact ⟨hp.1, fun x => ih x (hp.2 x)⟩

/-- A weaker bound on the operations. -/
theorem Uses.mono {P P' : E.Op → Prop} {p : Prog E α} (hp : p.Uses P)
    (h : ∀ o, P o → P' o) : p.Uses P' := by
  induction p with
  | ret a => trivial
  | ask o k ih => exact ⟨h o hp.1, fun x => ih x (hp.2 x)⟩

/-- The program asks for at least `n` operations before it returns something `bad`. -/
def Delays (bad : α → Prop) : Prog E α → Nat → Prop
  | .ret a, n => bad a → n = 0
  | .ask _ k, n => ∀ x, (k x).Delays bad (n - 1)

/-- Fewer operations are asked for. -/
theorem Delays.mono {bad : α → Prop} {p : Prog E α} {n m : Nat} (hp : p.Delays bad n)
    (h : m ≤ n) : p.Delays bad m := by
  induction p generalizing n m with
  | ret a => exact fun ha => Nat.le_zero.mp (hp ha ▸ h)
  | ask o k ih => exact fun x => ih x (hp x) (Nat.sub_le_sub_right h 1)

/-- Nothing is claimed of no operations. -/
theorem delays_zero {bad : α → Prop} (p : Prog E α) : p.Delays bad 0 := by
  induction p with
  | ret a => exact fun _ => rfl
  | ask o k ih => exact ih

/-- A result that is never bad may come at once. -/
theorem delays_of_not {bad : α → Prop} (p : Prog E α) (n : Nat) (h : ∀ a, ¬ bad a) :
    p.Delays bad n := by
  induction p generalizing n with
  | ret a => exact fun ha => (h a ha).elim
  | ask o k ih => exact fun x => ih x _

/-- **A bad result of the whole** comes from a bad result of the first part, or after a good one of
it. -/
theorem delays_bind {bad : α → Prop} {bad' : β → Prop} {p : Prog E α} {f : α → Prog E β} {n : Nat}
    (hp : p.Delays bad n) (hf : ∀ a, ¬ bad a → (f a).Delays bad' n) :
    (p >>= f).Delays bad' n := by
  induction p generalizing n with
  | ret a =>
    by_cases ha : bad a
    · cases hp ha
      exact delays_zero (f a)
    · exact hf a ha
  | ask o k ih => exact fun x => ih x (hp x) fun a ha => (hf a ha).mono (Nat.sub_le n 1)

/-- Only a bad result is turned into a bad one. -/
theorem delays_map {bad : α → Prop} {bad' : β → Prop} {p : Prog E α} {f : α → β} {n : Nat}
    (hp : p.Delays bad n) (hf : ∀ a, ¬ bad a → ¬ bad' (f a)) : (f <$> p).Delays bad' n := by
  rw [map_eq_pure_bind]
  exact delays_bind hp fun a ha hbad => (hf a ha hbad).elim

/-! ## 3. Programs carried out by other programs

`lower` replaces each operation by a program over another signature, as a task of a handle is
carried out on the world of its manager. -/

variable {E' : Sig}

/-- The program in which every operation is carried out by a program over another signature. -/
def lower (f : (o : E.Op) → Prog E' (E.Ans o)) : Prog E α → Prog E' α
  | .ret a => .ret a
  | .ask o k => f o >>= fun x => (k x).lower f

/-- To carry out two programs after another is to carry out each of them. -/
theorem lower_bind (f : (o : E.Op) → Prog E' (E.Ans o)) (p : Prog E α) (g : α → Prog E β) :
    (p >>= g).lower f = p.lower f >>= fun a => (g a).lower f := by
  induction p with
  | ret a => rfl
  | ask o k ih =>
    rw [ask_bind, lower, lower, bind_assoc]
    exact congrArg (f o >>= ·) (funext ih)

/-- What the replacing programs use is what the replaced one uses. -/
theorem uses_lower {f : (o : E.Op) → Prog E' (E.Ans o)} {P : E.Op → Prop} {P' : E'.Op → Prop}
    {p : Prog E α} (hp : p.Uses P) (h : ∀ o, P o → (f o).Uses P') : (p.lower f).Uses P' := by
  induction p with
  | ret a => trivial
  | ask o k ih => exact uses_bind (h o hp.1) fun x => ih x (hp.2 x)

/-! ## 4. Programs whose answers are given -/

variable {σ : Type}

/-- What a program asks for and what it returns, when a script gives the answers.  The script keeps
a state, in which it can count what it has been asked. -/
def replay (script : (o : E.Op) → σ → E.Ans o × σ) : Prog E α → σ → List E.Op × α
  | .ret a, _ => ([], a)
  | .ask o k, s =>
    let (x, s') := script o s
    let (os, a) := (k x).replay script s'
    (o :: os, a)

/-! ## 5. What a program has asked for

A path is the list of the operations that a program has asked for on its way to a later program,
with some answers.  It is the bridge from a run to statements about the order of the operations. -/

/-- `p` can ask for the operations `os`, in this order, and then be `q`. -/
inductive Path : Prog E α → List E.Op → Prog E α → Prop
  | refl (p : Prog E α) : Path p [] p
  | ask {o : E.Op} {k : E.Ans o → Prog E α} {x : E.Ans o} {os : List E.Op} {q : Prog E α}
      (h : Path (k x) os q) : Path (.ask o k) (o :: os) q

/-- One path after another. -/
theorem Path.trans {p q r : Prog E α} {os os' : List E.Op} (h : p.Path os q) (h' : q.Path os' r) :
    p.Path (os ++ os') r := by
  induction h with
  | refl p => exact h'
  | ask h ih => exact .ask (ih h')

/-- A program that has returned asks for nothing more. -/
theorem path_ret {a : α} {os : List E.Op} {q : Prog E α} (h : (Prog.ret a).Path os q) :
    os = [] ∧ q = .ret a := by
  cases h
  exact ⟨rfl, rfl⟩

/-- The path of a single operation. -/
theorem path_op {o : E.Op} {os : List E.Op} {x : E.Ans o} (h : (op o).Path os (.ret x)) :
    os = [o] := by
  cases h with
  | ask h => rw [(path_ret h).1]

/-- A program in two parts asks what the first part asks and then what the second does. -/
theorem path_bind {p : Prog E α} {f : α → Prog E β} {b : β} {os : List E.Op}
    (h : (p >>= f).Path os (.ret b)) :
    ∃ a os₁ os₂, p.Path os₁ (.ret a) ∧ (f a).Path os₂ (.ret b) ∧ os = os₁ ++ os₂ := by
  induction p generalizing os with
  | ret a => exact ⟨a, [], os, .refl _, h, rfl⟩
  | ask o k ih =>
    cases h with
    | @ask _ _ x os _ h =>
      obtain ⟨a, os₁, os₂, h₁, h₂, rfl⟩ := ih x h
      exact ⟨a, o :: os₁, os₂, .ask h₁, h₂, rfl⟩

/-- A program in two parts is still in the first part, or has left it for the second. -/
theorem path_bind_cases {p : Prog E α} {f : α → Prog E β} {q : Prog E β} {os : List E.Op}
    (h : (p >>= f).Path os q) :
    (∃ p', p.Path os p') ∨
      ∃ a os₁ os₂, p.Path os₁ (.ret a) ∧ (f a).Path os₂ q ∧ os = os₁ ++ os₂ := by
  induction p generalizing os with
  | ret a => exact .inr ⟨a, [], os, .refl _, h, rfl⟩
  | ask o k ih =>
    cases h with
    | refl => exact .inl ⟨_, .refl _⟩
    | @ask _ _ x os _ h =>
      rcases ih x h with ⟨p', hp⟩ | ⟨a, os₁, os₂, h₁, h₂, rfl⟩
      · exact .inl ⟨p', .ask hp⟩
      · exact .inr ⟨a, o :: os₁, os₂, .ask h₁, h₂, rfl⟩

/-- A program asks only what it uses. -/
theorem Path.uses {P : E.Op → Prop} {p q : Prog E α} {os : List E.Op} (h : p.Path os q)
    (hp : p.Uses P) : ∀ o ∈ os, P o := by
  induction h with
  | refl p =>
    intro o ho
    cases ho
  | ask h ih =>
    intro o ho
    rcases List.mem_cons.mp ho with rfl | ho
    · exact hp.1
    · exact ih (hp.2 _) o ho

/-- What a program asks when each of its operations is carried out by certain others. -/
theorem path_lower {f : (o : E.Op) → Prog E' (E.Ans o)} {g : E.Op → List E'.Op}
    (hf : ∀ o x os, (f o).Path os (.ret x) → os = g o) {p : Prog E α} {a : α} {os : List E'.Op}
    (h : (p.lower f).Path os (.ret a)) : ∃ os', p.Path os' (.ret a) ∧ os = os'.flatMap g := by
  induction p generalizing os with
  | ret b =>
    obtain ⟨rfl, hb⟩ := path_ret h
    cases hb
    exact ⟨[], .refl _, rfl⟩
  | ask o k ih =>
    obtain ⟨x, os₁, os₂, h₁, h₂, rfl⟩ := path_bind h
    obtain ⟨os', h', rfl⟩ := ih x h₂
    rw [hf o x os₁ h₁]
    exact ⟨o :: os', .ask h', rfl⟩

end Prog

end Interact

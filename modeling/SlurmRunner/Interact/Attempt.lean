/-
# Calls that may be given up

A caller may drop a call at any await, and go on with the next one.  An `attempt` is a call that is
dropped when its moves end before it has returned; a session of attempts makes them one after
another, and the environment may also move between them.
-/
import SlurmRunner.Interact.Logic

namespace Interact

namespace Machine

variable {E : Sig} (M : Machine E) {α β : Type}

/-- Run `p` alone as task `t`, and drop it at the await that it has reached when the moves end. -/
def attempt (t : Nat) : Prog E α → List (M.In ⊕ M.Env) → M.World → Option (Option α × M.World)
  | .ret a, [], w => some (some a, w)
  | .ret _, _ :: _, _ => none
  | .ask o _, [], w => if M.await o then some (none, M.drop t w) else none
  | .ask o k, .inl i :: ms, w =>
    match M.exec t o i w with
    | some (a, w') => attempt t (k a) ms w'
    | none => none
  | .ask o k, .inr e :: ms, w =>
    if M.await o then
      match M.tick e w with
      | some w' => attempt t (.ask o k) ms w'
      | none => none
    else none

/-- Make the attempts one after another; the environment may move between them. -/
def attempts (t : Nat) (program : β → Prog E α) :
    List ((β × List (M.In ⊕ M.Env)) ⊕ M.Env) → M.World → Option M.World
  | [], w => some w
  | .inl (b, ms) :: rest, w =>
    match M.attempt t (program b) ms w with
    | some (_, w') => attempts t program rest w'
    | none => none
  | .inr e :: rest, w =>
    match M.tick e w with
    | some w' => attempts t program rest w'
    | none => none

/-- What a session of attempts on concrete moves reaches, from its evaluation. -/
theorem exists_attempts {t : Nat} {program : β → Prog E α}
    {steps : List ((β × List (M.In ⊕ M.Env)) ⊕ M.Env)} {w : M.World} {q : M.World → Prop}
    [DecidablePred q] (h : ((M.attempts t program steps w).any fun w' => decide (q w')) = true) :
    ∃ w', M.attempts t program steps w = some w' ∧ q w' := by
  obtain ⟨w', hr, hq⟩ := (Option.any_eq_true _ _).mp h
  exact ⟨w', hr, of_decide_eq_true hq⟩

end Machine

namespace SoloLogic

variable {E : Sig} {M : Machine E} (L : SoloLogic M) {α β : Type} {t : Nat}

/-- An attempt keeps the invariant, wherever it is dropped. -/
theorem attempt_inv (hdrop : ∀ t w, L.inv w → L.inv (M.drop t w)) {Q : α → M.World → Prop} :
    ∀ (ms : List (M.In ⊕ M.Env)) (p : Prog E α) (w : M.World) (r : Option α) (w' : M.World),
      L.inv w → L.wp t p Q w → M.attempt t p ms w = some (r, w') → L.inv w'
  | [], .ret a, w, r, w', hi, _, h => by
    cases h
    exact hi
  | _ :: _, .ret a, w, r, w', _, _, h => by cases h
  | [], .ask o k, w, r, w', hi, _, h => by
    simp only [Machine.attempt] at h
    split at h
    · cases h
      exact hdrop t w hi
    · cases h
  | .inl i :: ms, .ask o k, w, r, w', hi, hwp, h => by
    simp only [Machine.attempt] at h
    split at h
    · rename_i a w₂ he
      obtain ⟨hpre, hk⟩ := hwp w (L.lapse_refl t o w) hi
      have hi₂ : L.inv w₂ := L.inv_exec hi hpre he
      exact attempt_inv hdrop ms (k a) w₂ r w' hi₂ (hk i a w₂ he hi₂) h
    · cases h
  | .inr e :: ms, .ask o k, w, r, w', hi, hwp, h => by
    simp only [Machine.attempt] at h
    split at h
    · rename_i ho
      split at h
      · rename_i w₁ ht
        have hw₁ : L.wp t (.ask o k) Q w₁ := fun w₂ hl =>
          hwp w₂ (L.lapse_trans ho (L.rely_tick hi ht) hl)
        exact attempt_inv hdrop ms (.ask o k) w₁ r w' (L.inv_tick hi ht) hw₁ h
      · cases h
    · cases h

/-- **A session of attempts keeps the invariant**, if every program is proved wherever it starts. -/
theorem attempts_inv (hdrop : ∀ t w, L.inv w → L.inv (M.drop t w)) {program : β → Prog E α}
    {P : β → Prop} {Q : α → M.World → Prop} (hwp : ∀ b w, P b → L.inv w → L.wp t (program b) Q w)
    {steps : List ((β × List (M.In ⊕ M.Env)) ⊕ M.Env)}
    (hP : ∀ b ms, .inl (b, ms) ∈ steps → P b) {w w' : M.World} (hi : L.inv w)
    (h : M.attempts t program steps w = some w') : L.inv w' := by
  induction steps generalizing w with
  | nil =>
    cases h
    exact hi
  | cons s rest ih =>
    have hrest : ∀ b ms, .inl (b, ms) ∈ rest → P b :=
      fun b ms hm => hP b ms (List.mem_cons_of_mem _ hm)
    match s with
    | .inl (b, ms) =>
      simp only [Machine.attempts] at h
      split at h
      · rename_i r w₁ hattempt
        have hb : P b := hP b ms List.mem_cons_self
        exact ih hrest (L.attempt_inv hdrop ms _ w r w₁ hi (hwp b w hb hi) hattempt) h
      · cases h
    | .inr e =>
      simp only [Machine.attempts] at h
      split at h
      · rename_i w₁ ht
        exact ih hrest (L.inv_tick hi ht) h
      · cases h

end SoloLogic

end Interact

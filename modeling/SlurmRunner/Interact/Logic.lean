/-
# A rely logic for interleaved programs

`C.wp t p Q w` says: started by task `t` in the world `w`, the program `p` makes only permitted
operations, and if it returns, its result and the world then satisfy `Q`.  While `p` is
suspended the world may change in any way that `C.rely t` allows; between two awaits it may not.

A `Context` packs what such a proof is relative to: an invariant, the permission `pre` each
operation needs, and the rely.  A `Logic` adds the proofs that a permitted operation keeps the
invariant and stays inside the rely of every other task.  So the invariant is checked once per
operation (in the logic), and a program proof only shows the permissions.

The two adequacy theorems are `Config.run_sound`, for any number of tasks under every
interleaving, and `SoloLogic.wp_call`, for a program run alone.
-/
import SlurmRunner.Interact.Machine

namespace Interact

/-! ## 1. Contexts and logics

A context is a rely condition for each task, an invariant, and the permission that an operation
needs.  It becomes a logic where the steps of a task stay within what the others rely on, so that
each task is proved alone. -/

/-- What a program proof over `M` is relative to. -/
structure Context {E : Sig} (M : Machine E) where
  inv : M.World → Prop
  /-- What task `t` must know before it makes an operation. -/
  pre : (t : Nat) → E.Op → M.World → Prop
  /-- What the world may do while task `t` is suspended. -/
  rely : (t : Nat) → M.World → M.World → Prop
  rely_refl : ∀ t w, rely t w w
  rely_trans : ∀ {t w w' w''}, rely t w w' → rely t w' w'' → rely t w w''

/-- A context whose invariant every permitted operation of a task running alone keeps. -/
structure SoloLogic {E : Sig} (M : Machine E) extends Context M where
  inv_exec : ∀ {t o i w a w'}, inv w → pre t o w → M.exec t o i w = some (a, w') → inv w'
  inv_tick : ∀ {e w w'}, inv w → M.tick e w = some w' → inv w'
  rely_tick : ∀ {t e w w'}, inv w → M.tick e w = some w' → rely t w w'

/-- A context in which every permitted operation stays inside the rely of all other tasks. -/
structure Logic {E : Sig} (M : Machine E) extends SoloLogic M where
  rely_exec : ∀ {t u o i w a w'}, inv w → pre t o w → M.exec t o i w = some (a, w') → u ≠ t →
    rely u w w'
  inv_drop : ∀ {t w}, inv w → inv (M.drop t w)
  rely_drop : ∀ {t u w}, inv w → u ≠ t → rely u w (M.drop t w)

namespace Context

variable {E : Sig} {M : Machine E} (C : Context M) {α β : Type}

/-- How the world may have moved when task `t` makes operation `o`: by the rely at an await,
not at all elsewhere. -/
def Lapse (t : Nat) (o : E.Op) (w w' : M.World) : Prop :=
  if M.await o then C.rely t w w' else w' = w

/-- While a task waits, the others stay within its rely. -/
theorem Lapse.rely {t : Nat} {o : E.Op} {w w' : M.World} (h : C.Lapse t o w w') :
    C.rely t w w' := by
  unfold Lapse at h
  split at h
  · exact h
  · exact h ▸ C.rely_refl t w

/-- No time has passed. -/
theorem lapse_refl (t : Nat) (o : E.Op) (w : M.World) : C.Lapse t o w w := by
  unfold Lapse
  split
  · exact C.rely_refl t w
  · rfl

/-- The others may go on, as long as the operation awaits. -/
theorem lapse_trans {t : Nat} {o : E.Op} {w w' w'' : M.World} (ho : M.await o = true)
    (h : C.rely t w w') (h' : C.Lapse t o w' w'') : C.Lapse t o w w'' := by
  unfold Lapse at h' ⊢
  rw [if_pos ho] at h' ⊢
  exact C.rely_trans h h'

/-! ## 2. The weakest precondition and its rules

By recursion on the program: at an await the world may change within the rely before the operation
is made, and at a silent operation it may not. -/

/-- The weakest precondition of a program. -/
def wp (t : Nat) : Prog E α → (α → M.World → Prop) → M.World → Prop
  | .ret a, Q, w => Q a w
  | .ask o k, Q, w => ∀ w₁, C.Lapse t o w w₁ → C.inv w₁ →
      C.pre t o w₁ ∧ ∀ i a w₂, M.exec t o i w₁ = some (a, w₂) → C.inv w₂ → wp t (k a) Q w₂

variable {C} {t : Nat}

/-- What is asked for is asked for now. -/
@[simp] theorem wp_ret {a : α} {Q : α → M.World → Prop} {w : M.World} :
    C.wp t (.ret a) Q w ↔ Q a w := Iff.rfl

/-- Consequence. -/
theorem wp_mono {p : Prog E α} {Q Q' : α → M.World → Prop} {w : M.World}
    (h : C.wp t p Q w) (hQ : ∀ a w', Q a w' → Q' a w') : C.wp t p Q' w := by
  induction p generalizing w with
  | ret a => exact hQ a w h
  | ask o k ih =>
    intro w₁ hl hi
    obtain ⟨hpre, hk⟩ := h w₁ hl hi
    exact ⟨hpre, fun i a w₂ he hi₂ => ih a (hk i a w₂ he hi₂)⟩

/-- Sequencing. -/
theorem wp_bind {p : Prog E α} {f : α → Prog E β} {Q : β → M.World → Prop} {w : M.World}
    (h : C.wp t p (fun a w' => C.wp t (f a) Q w') w) : C.wp t (p >>= f) Q w := by
  induction p generalizing w with
  | ret a => exact h
  | ask o k ih =>
    intro w₁ hl hi
    obtain ⟨hpre, hk⟩ := h w₁ hl hi
    exact ⟨hpre, fun i a w₂ he hi₂ => ih a (hk i a w₂ he hi₂)⟩

/-- What holds of a program in every world holds of it after another one, whatever that one
returns: the rule of a call whose result is handled by cases. -/
theorem wp_seq {p : Prog E α} {f : α → Prog E β} {P : α → M.World → Prop}
    {Q : β → M.World → Prop} {w : M.World} (hp : C.wp t p P w)
    (hf : ∀ a w', P a w' → C.wp t (f a) Q w') : C.wp t (p >>= f) Q w :=
  wp_bind (wp_mono hp hf)

/-- The rule for a function of the result. -/
theorem wp_map {p : Prog E α} (f : α → β) {Q : β → M.World → Prop} {w : M.World}
    (h : C.wp t p (fun a w' => Q (f a) w') w) : C.wp t (f <$> p) Q w := by
  rw [map_eq_pure_bind]
  exact wp_bind h

/-- A program returns in a world where the invariant holds, if it started in one. -/
theorem wp_inv {p : Prog E α} {Q : α → M.World → Prop} {w : M.World} (hi : C.inv w)
    (h : C.wp t p Q w) : C.wp t p (fun a w' => Q a w' ∧ C.inv w') w := by
  induction p generalizing w with
  | ret a => exact ⟨h, hi⟩
  | ask o k ih =>
    intro w₁ hl hi₁
    obtain ⟨hpre, hk⟩ := h w₁ hl hi₁
    exact ⟨hpre, fun i a w₂ he hi₂ => ih a hi₂ (hk i a w₂ he hi₂)⟩

/-- A program whose operations all need no permission. -/
theorem wp_of_uses {p : Prog E α} {P : E.Op → Prop} {w : M.World}
    (hpre : ∀ {o w}, P o → C.inv w → C.pre t o w) (hp : p.Uses P) :
    C.wp t p (fun _ _ => True) w := by
  induction p generalizing w with
  | ret a => trivial
  | ask o k ih => exact fun w₁ _ hi => ⟨hpre hp.1 hi, fun i a w₂ _ _ => ih a (hp.2 a)⟩

/-- **The frame rule.**  A reflexive and transitive relation that contains the rely, and every
permitted step of the operations the program uses, holds from its start to its return. -/
theorem wp_frame {p : Prog E α} {P : E.Op → Prop} {F : M.World → M.World → Prop}
    {Q : α → M.World → Prop} {w₀ w : M.World}
    (htrans : ∀ {w w' w''}, F w w' → F w' w'' → F w w'')
    (hrely : ∀ {w w'}, C.rely t w w' → F w w')
    (hstep : ∀ {o i w a w'}, P o → C.pre t o w → M.exec t o i w = some (a, w') → F w w')
    (hp : p.Uses P) (h : C.wp t p Q w) (h₀ : F w₀ w) :
    C.wp t p (fun a w' => Q a w' ∧ F w₀ w') w := by
  induction p generalizing w with
  | ret a => exact ⟨h, h₀⟩
  | ask o k ih =>
    intro w₁ hl hi
    obtain ⟨hpre, hk⟩ := h w₁ hl hi
    refine ⟨hpre, fun i a w₂ he hi₂ => ih a (hp.2 a) (hk i a w₂ he hi₂) ?_⟩
    exact htrans (htrans h₀ (hrely hl.rely)) (hstep hp.1 hpre he)

/-- **The frame rule of all permitted operations**, in the worlds where the invariant holds. -/
theorem wp_grows {p : Prog E α} {F : M.World → M.World → Prop} {Q : α → M.World → Prop}
    {w₀ w : M.World} (htrans : ∀ {w w' w''}, F w w' → F w' w'' → F w w'')
    (hrely : ∀ {w w'}, C.rely t w w' → F w w')
    (hstep : ∀ {o i w a w'}, C.inv w → C.pre t o w → M.exec t o i w = some (a, w') → F w w')
    (h : C.wp t p Q w) (h₀ : F w₀ w) : C.wp t p (fun a w' => Q a w' ∧ F w₀ w') w := by
  induction p generalizing w with
  | ret a => exact ⟨h, h₀⟩
  | ask o k ih =>
    intro w₁ hl hi
    obtain ⟨hpre, hk⟩ := h w₁ hl hi
    refine ⟨hpre, fun i a w₂ he hi₂ => ih a (hk i a w₂ he hi₂) ?_⟩
    exact htrans (htrans h₀ (hrely hl.rely)) (hstep hi hpre he)

/-- A suspended program's weakest precondition is stable under the rely. -/
theorem wp_rely {p : Prog E α} {Q : α → M.World → Prop} {w w' : M.World}
    (hQ : ∀ a w w', Q a w → C.rely t w w' → Q a w') (hs : M.Suspended p)
    (h : C.wp t p Q w) (hr : C.rely t w w') : C.wp t p Q w' := by
  cases p with
  | ret a => exact hQ a w w' h hr
  | ask o k =>
    intro w₁ hl
    refine h w₁ ?_
    exact C.lapse_trans hs hr hl

/-- The rule of an operation at which the task is not suspended. -/
theorem wp_sync {o : E.Op} {Q : E.Ans o → M.World → Prop} {w : M.World}
    (ho : M.await o = false) (hpre : C.inv w → C.pre t o w)
    (h : ∀ i a w', C.inv w → M.exec t o i w = some (a, w') → C.inv w' → Q a w') :
    C.wp t (Prog.op o) Q w := by
  intro w₁ hl hi
  unfold Lapse at hl
  rw [if_neg (by simp [ho])] at hl
  subst hl
  exact ⟨hpre hi, fun i a w' he hi' => h i a w' hi he hi'⟩

/-- The rule of an operation at which the task may be suspended. -/
theorem wp_await {o : E.Op} {Q : E.Ans o → M.World → Prop} {w : M.World}
    (hpre : ∀ w₁, C.rely t w w₁ → C.inv w₁ → C.pre t o w₁)
    (h : ∀ w₁ i a w', C.rely t w w₁ → C.inv w₁ → M.exec t o i w₁ = some (a, w') → C.inv w' →
      Q a w') : C.wp t (Prog.op o) Q w := by
  intro w₁ hl hi
  exact ⟨hpre w₁ hl.rely hi, fun i a w' he hi' => h w₁ i a w' hl.rely hi he hi'⟩

end Context

/-! ## 3. Adequacy for a program run alone

What the rules prove of a program holds of every run of it in which no other task does anything. -/

namespace SoloLogic

variable {E : Sig} {M : Machine E} (L : SoloLogic M) {α : Type} {t : Nat}

/-- **Adequacy, one program.**  A program run alone ends in its postcondition. -/
theorem wp_call {Q : α → M.World → Prop} :
    ∀ (ms : List (M.In ⊕ M.Env)) (p : Prog E α) (w : M.World) (a : α) (w' : M.World),
      L.inv w → L.wp t p Q w → M.call t p ms w = some (a, w') → Q a w' ∧ L.inv w'
  | [], .ret b, w, a, w', hi, h, hc => by
    simp only [Machine.call, Option.some.injEq, Prod.mk.injEq] at hc
    obtain ⟨rfl, rfl⟩ := hc
    exact ⟨h, hi⟩
  | [], .ask o k, w, a, w', _, _, hc => by simp [Machine.call] at hc
  | _ :: _, .ret b, w, a, w', _, _, hc => by simp [Machine.call] at hc
  | .inl i :: ms, .ask o k, w, a, w', hi, h, hc => by
    simp only [Machine.call] at hc
    split at hc
    · rename_i x w₂ he
      obtain ⟨hpre, hk⟩ := h w (L.lapse_refl t o w) hi
      have hi₂ : L.inv w₂ := L.inv_exec hi hpre he
      exact wp_call ms (k x) w₂ a w' hi₂ (hk i x w₂ he hi₂) hc
    · cases hc
  | .inr e :: ms, .ask o k, w, a, w', hi, h, hc => by
    simp only [Machine.call] at hc
    split at hc
    · rename_i ho
      split at hc
      · rename_i w₁ ht
        have hw₁ : L.wp t (.ask o k) Q w₁ := fun w₂ hl =>
          h w₂ (L.lapse_trans ho (L.rely_tick hi ht) hl)
        exact wp_call ms (.ask o k) w₁ a w' (L.inv_tick hi ht) hw₁ hc
      · cases hc
    · cases hc

end SoloLogic

/-! ## 4. Adequacy for interleaved tasks

What the rules prove of each task holds in every run of all of them, drops included: the invariant
after every step, and of each task that has returned what was to be proved of its result. -/

namespace Config

variable {E : Sig} {M : Machine E} {α : Type}

/-- Every task of the configuration is suspended and proved, and the invariant holds. -/
structure Safe (L : Logic M) (Q : Nat → α → M.World → Prop) (c : Config M α) : Prop where
  inv : L.inv c.world
  suspended : c.Settled
  proved : ∀ t p, c.tasks t = some p → L.wp t p (Q t) c.world

variable {L : Logic M} {Q : Nat → α → M.World → Prop}

/-- What the block of a task up to its next await does. -/
theorem settle_sound {t : Nat} {p p' : Prog E α} {w w' : M.World} (hi : L.inv w)
    (h : L.wp t p (Q t) w) (hs : M.settle t p w = some (p', w')) :
    L.inv w' ∧ L.wp t p' (Q t) w' ∧ ∀ u, u ≠ t → L.rely u w w' := by
  induction p generalizing w with
  | ret a =>
    simp only [Machine.settle, Option.some.injEq, Prod.mk.injEq] at hs
    obtain ⟨rfl, rfl⟩ := hs
    exact ⟨hi, h, fun u _ => L.rely_refl u w⟩
  | ask o k ih =>
    unfold Machine.settle at hs
    split at hs
    · simp only [Option.some.injEq, Prod.mk.injEq] at hs
      obtain ⟨rfl, rfl⟩ := hs
      exact ⟨hi, h, fun u _ => L.rely_refl u w⟩
    · split at hs
      · rename_i a w₂ he
        obtain ⟨hpre, hk⟩ := h w (L.lapse_refl t o w) hi
        have hi₂ : L.inv w₂ := L.inv_exec hi hpre he
        obtain ⟨h1, h2, h3⟩ := ih a hi₂ (hk M.go a w₂ he hi₂) hs
        exact ⟨h1, h2, fun u hu => L.rely_trans (L.rely_exec hi hpre he hu) (h3 u hu)⟩
      · cases hs

/-- A move of one task, or of the environment, stays inside the rely of the others. -/
theorem Safe.rely {c c' : Config M α} {m : Move M} (h : Safe L Q c) (hm : c.next m = some c')
    {u : Nat} (hpass : ∀ i, m ≠ .pass u i) (hdrop : m ≠ .drop u) : L.rely u c.world c'.world := by
  obtain ⟨hi, -, hp⟩ := h
  rcases next_cases hm with ⟨t, i, o, k, a, w, p, rfl, ht, he, hset, -⟩ |
    ⟨e, -, he, -⟩ | ⟨t, o, k, rfl, -, hw, -⟩
  · have hu : u ≠ t := fun hut => hpass i (by rw [hut])
    obtain ⟨hpre, hk⟩ := hp t _ ht c.world (L.lapse_refl t o c.world) hi
    obtain ⟨-, -, hrely⟩ := settle_sound (L.inv_exec hi hpre he) (hk i a w he
      (L.inv_exec hi hpre he)) hset
    exact L.rely_trans (L.rely_exec hi hpre he hu) (hrely u hu)
  · exact L.rely_tick hi he
  · have hu : u ≠ t := fun hut => hdrop (by rw [hut])
    exact hw ▸ L.rely_drop hi hu

/-- **One move keeps every task proved.** -/
theorem Safe.next {c c' : Config M α} {m : Move M}
    (hQ : ∀ t a w w', Q t a w → L.rely t w w' → Q t a w') (h : Safe L Q c)
    (hm : c.next m = some c') : Safe L Q c' := by
  have hrely := fun u => h.rely hm (u := u)
  obtain ⟨hi, hs, hp⟩ := h
  -- a task that does not move stays proved, whatever the others did
  have hstay : ∀ u q, (∀ i, m ≠ .pass u i) → m ≠ .drop u → c.tasks u = some q →
      L.wp u q (Q u) c'.world := fun u q h₁ h₂ hq =>
    Context.wp_rely (hQ u) (hs u q hq) (hp u q hq) (hrely u h₁ h₂)
  rcases next_cases hm with ⟨t, i, o, k, a, w, p, rfl, ht, he, hset, htasks⟩ |
    ⟨e, rfl, he, htasks⟩ | ⟨t, o, k, rfl, ht, hw, htasks⟩
  · obtain ⟨hpre, hk⟩ := hp t _ ht c.world (L.lapse_refl t o c.world) hi
    have hi₂ : L.inv w := L.inv_exec hi hpre he
    obtain ⟨hi', hwp, -⟩ := settle_sound hi₂ (hk i a w he hi₂) hset
    refine ⟨hi', fun u q hq => ?_, fun u q hq => ?_⟩
    · by_cases hu : u = t
      · subst hu
        rw [htasks, Function.update_self, Option.some.injEq] at hq
        exact hq ▸ Machine.settle_suspended M hset
      · rw [htasks, Function.update_of_ne hu] at hq
        exact hs u q hq
    · by_cases hu : u = t
      · subst hu
        rw [htasks, Function.update_self, Option.some.injEq] at hq
        exact hq ▸ hwp
      · rw [htasks, Function.update_of_ne hu] at hq
        exact hstay u q (fun j hj => hu (by cases hj; rfl)) (fun hj => by cases hj) hq
  · refine ⟨L.inv_tick hi he, fun u q hq => hs u q (htasks ▸ hq), fun u q hq => ?_⟩
    exact hstay u q (fun _ hj => by cases hj) (fun hj => by cases hj) (htasks ▸ hq)
  · refine ⟨hw ▸ L.inv_drop hi, fun u q hq => ?_, fun u q hq => ?_⟩
    · by_cases hu : u = t
      · subst hu
        rw [htasks, Function.update_self] at hq
        cases hq
      · rw [htasks, Function.update_of_ne hu] at hq
        exact hs u q hq
    · by_cases hu : u = t
      · subst hu
        rw [htasks, Function.update_self] at hq
        cases hq
      · rw [htasks, Function.update_of_ne hu] at hq
        exact hstay u q (fun _ hj => by cases hj) (fun hj => hu (by cases hj; rfl)) hq

/-- **Adequacy, interleaved tasks.**  In every run, under every interleaving, the invariant
holds and every task that has returned satisfies its postcondition. -/
theorem run_sound (hQ : ∀ t a w w', Q t a w → L.rely t w w' → Q t a w')
    {ms : List (Move M)} {c c' : Config M α} (h : Safe L Q c) (hr : c.run ms = some c') :
    Safe L Q c' :=
  run_induct (fun _ _ _ hc hm => Safe.next hQ hc hm) ms c c' h hr

/-- A task that has returned satisfies its postcondition. -/
theorem Safe.post {c : Config M α} (h : Safe L Q c) {t : Nat} {a : α} (hr : c.result t = some a) :
    Q t a c.world := h.proved t _ (result_eq_some.mp hr)

/-- **A task that makes no move** stays where it is, and the world moves inside its rely. -/
theorem run_rely (hQ : ∀ t a w w', Q t a w → L.rely t w w' → Q t a w') {u : Nat} :
    ∀ {ms : List (Move M)} {c c' : Config M α}, Safe L Q c → (∀ m ∈ ms, m.task ≠ some u) →
      c.run ms = some c' → L.rely u c.world c'.world ∧ c'.tasks u = c.tasks u
  | [], c, c', _, _, hr => by
    cases hr
    exact ⟨L.rely_refl u _, rfl⟩
  | m :: ms, c, c', h, hms, hr => by
    have hm := hms m List.mem_cons_self
    simp only [run] at hr
    split at hr
    · rename_i c₁ h₁
      obtain ⟨hrely, htask⟩ := run_rely hQ (Safe.next hQ h h₁)
        (fun m hm => hms m (List.mem_cons_of_mem _ hm)) hr
      refine ⟨L.rely_trans (h.rely h₁ (fun i hi => hm (by rw [hi]; rfl))
        (fun hd => hm (by rw [hd]; rfl))) hrely, htask.trans ?_⟩
      rcases next_cases h₁ with ⟨t, i, o, k, a, w, p, rfl, -, -, -, htasks⟩ | ⟨e, -, -, htasks⟩ |
        ⟨t, o, k, rfl, -, -, htasks⟩
      · rw [htasks, Function.update_of_ne fun hut => hm (by rw [hut]; rfl)]
      · rw [htasks]
      · rw [htasks, Function.update_of_ne fun hut => hm (by rw [hut]; rfl)]
    · cases hr

/-- **Dropped tasks.**  What the permission of an await leaves of a task that is dropped there, and
the others cannot change, holds of every dropped task at the end of every run. -/
theorem run_dropped (hQ : ∀ t a w w', Q t a w → L.rely t w w' → Q t a w')
    {G : Nat → M.World → Prop} (hG : ∀ t w w', G t w → L.rely t w w' → G t w')
    (hdrop : ∀ t o w, L.inv w → M.await o = true → L.pre t o w → G t (M.drop t w))
    {ms : List (Move M)} {c c' : Config M α} (h : Safe L Q c)
    (h₀ : ∀ t, c.tasks t = none → G t c.world) (hr : c.run ms = some c') :
    ∀ t, c'.tasks t = none → G t c'.world := by
  refine (run_induct (P := fun c => Safe L Q c ∧ ∀ t, c.tasks t = none → G t c.world)
    (fun c m c' hc hm => ?_) ms c c' ⟨h, h₀⟩ hr).2
  obtain ⟨hsafe, hgone⟩ := hc
  refine ⟨Safe.next hQ hsafe hm, fun u hu => ?_⟩
  by_cases hm' : m = .drop u
  · rcases next_cases hm with ⟨t, i, o, k, a, w, p, rfl, -⟩ | ⟨e, rfl, -⟩ |
      ⟨t, o, k, rfl, ht, hw, -⟩
    · cases hm'
    · cases hm'
    · cases hm'
      rw [hw]
      exact hdrop u o c.world hsafe.inv (hsafe.suspended u _ ht)
        (hsafe.proved u _ ht c.world (L.lapse_refl u o c.world) hsafe.inv).1
  · have hpass : ∀ i, m ≠ .pass u i := by
      rintro i rfl
      rcases next_cases hm with ⟨t, j, o, k, a, w, p, hmove, -, -, -, htasks⟩ | ⟨e, hmove, -⟩ |
        ⟨t, o, k, hmove, -⟩
      · cases hmove
        rw [htasks, Function.update_self] at hu
        cases hu
      · cases hmove
      · cases hmove
    refine hG u _ _ (hgone u ?_) (hsafe.rely hm hpass hm')
    rcases next_cases hm with ⟨t, j, o, k, a, w, p, hmove, -, -, -, htasks⟩ | ⟨e, -, -, htasks⟩ |
      ⟨t, o, k, hmove, -, -, htasks⟩
    · rwa [htasks, Function.update_of_ne (fun hut => hpass j (by rw [hmove, hut]))] at hu
    · rwa [htasks] at hu
    · rwa [htasks, Function.update_of_ne (fun hut => hm' (by rw [hmove, hut]))] at hu

end Config

end Interact

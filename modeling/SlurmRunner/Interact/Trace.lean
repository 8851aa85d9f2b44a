/-
# The history of a run

An observer notes something of the operations that tasks make.  `Config.notes` is what it has
noted in a run, newest first.  The run itself does not know of it, so a property of histories is a
property of the runs of the machine as it is.
-/
import SlurmRunner.Interact.Machine

namespace Interact

variable {E : Sig} {M : Machine E} {α Note : Type}

/-- Every note of a history satisfies `P`, with the notes before it. -/
inductive Always (P : Note → List Note → Prop) : List Note → Prop
  | nil : Always P []
  | cons {n : Note} {earlier : List Note} (h : P n earlier) (hs : Always P earlier) :
      Always P (n :: earlier)

/-- What is noted, newest first, when task `t` makes operation `o` in the world `w`. -/
abbrev Observer (M : Machine E) (Note : Type) : Type := Nat → E.Op → M.World → List Note

namespace Machine

variable (M) (obs : Observer M Note)

/-- What is noted while a task runs up to its next await. -/
def settleNotes (t : Nat) : Prog E α → M.World → List Note
  | .ret _, _ => []
  | .ask o k, w =>
    if M.await o then []
    else match M.exec t o M.go w with
      | some (a, w') => settleNotes t (k a) w' ++ obs t o w
      | none => []

variable {M} {obs}

/-- A suspended task notes nothing. -/
theorem settleNotes_await {t : Nat} {o : E.Op} {k : E.Ans o → Prog E α} {w : M.World}
    (ho : M.await o = true) : M.settleNotes obs t (.ask o k) w = [] := by
  rw [settleNotes, if_pos ho]

/-- The notes of a silent operation come before those of what follows; the last one is the head of
the list. -/
theorem settleNotes_sync {t : Nat} {o : E.Op} {k : E.Ans o → Prog E α} {w w' : M.World}
    {a : E.Ans o} (ho : M.await o = false) (he : M.exec t o M.go w = some (a, w')) :
    M.settleNotes obs t (.ask o k) w = M.settleNotes obs t (k a) w' ++ obs t o w := by
  rw [settleNotes, if_neg (by simp [ho]), he]

/-- A block begins with an operation and goes on with its answer. -/
theorem block_sync {t : Nat} {o : E.Op} {k : E.Ans o → Prog E α} {w w' : M.World} {a : E.Ans o}
    {r : Option (Prog E α × M.World)} {l : List Note} (ho : M.await o = false)
    (he : M.exec t o M.go w = some (a, w'))
    (h : M.settle t (k a) w' = r ∧ M.settleNotes obs t (k a) w' = l) :
    M.settle t (.ask o k) w = r ∧ M.settleNotes obs t (.ask o k) w = l ++ obs t o w := by
  rw [M.settle_sync ho he, settleNotes_sync ho he, h.1, h.2]
  exact ⟨rfl, rfl⟩

/-- The same for an operation of which nothing is noted. -/
theorem block_silent {t : Nat} {o : E.Op} {k : E.Ans o → Prog E α} {w w' : M.World} {a : E.Ans o}
    {r : Option (Prog E α × M.World)} {l : List Note} (ho : M.await o = false)
    (he : M.exec t o M.go w = some (a, w')) (hl : obs t o w = [])
    (h : M.settle t (k a) w' = r ∧ M.settleNotes obs t (k a) w' = l) :
    M.settle t (.ask o k) w = r ∧ M.settleNotes obs t (.ask o k) w = l := by
  have hb := block_sync ho he h
  rwa [hl, List.append_nil] at hb

/-- A block ends at an await. -/
theorem block_await {t : Nat} {o : E.Op} {k : E.Ans o → Prog E α} {w : M.World}
    (ho : M.await o = true) : M.settle t (.ask o k) w = some (.ask o k, w) ∧
      M.settleNotes obs t (.ask o k) w = [] :=
  ⟨M.settle_await ho, settleNotes_await ho⟩

end Machine

namespace Config

variable (obs : Observer M Note)

/-- What is noted of a move. -/
def nextNotes (c : Config M α) : Move M → List Note
  | .pass t i =>
    match c.tasks t with
    | some (.ask o k) =>
      match M.exec t o i c.world with
      | some (a, w) => M.settleNotes obs t (k a) w ++ obs t o c.world
      | none => []
    | _ => []
  | .tick _ | .drop _ => []

/-- What is noted of a run. -/
def notes : List (Move M) → Config M α → List Note
  | [], _ => []
  | m :: ms, c =>
    match c.next m with
    | some c' => notes ms c' ++ c.nextNotes obs m
    | none => []

variable {obs}

/-- The notes of a step are those of its operation and of what follows silently. -/
theorem nextNotes_pass {c : Config M α} {t : Nat} {i : M.In} {o : E.Op} {k : E.Ans o → Prog E α}
    {a : E.Ans o} {w : M.World} (ht : c.tasks t = some (.ask o k))
    (he : M.exec t o i c.world = some (a, w)) :
    c.nextNotes obs (.pass t i) = M.settleNotes obs t (k a) w ++ obs t o c.world := by
  simp only [nextNotes, ht, he]

/-- **What every move keeps** of a configuration and its history holds at the end of every run. -/
theorem run_notes_induct {P : Config M α → List Note → Prop} {S : Move M → Prop}
    (hstep : ∀ c l m c', P c l → S m → c.next m = some c' → P c' (c.nextNotes obs m ++ l)) :
    ∀ {ms : List (Move M)} {c c' : Config M α} {l : List Note}, P c l → (∀ m ∈ ms, S m) →
      c.run ms = some c' → P c' (c.notes obs ms ++ l)
  | [], c, c', l, hc, _, hr => by
    cases hr
    exact hc
  | m :: ms, c, c', l, hc, hms, hr => by
    simp only [run] at hr
    split at hr
    · rename_i c₁ h₁
      simp only [notes, h₁, List.append_assoc]
      exact run_notes_induct hstep (hstep c l m c₁ hc (hms m List.mem_cons_self) h₁)
        (fun m hm => hms m (List.mem_cons_of_mem _ hm)) hr
    · cases hr

end Config

/-! ## The operations of one task -/

/-- Task `t` makes an operation. -/
def askedBy (t : Nat) : Observer M E.Op := fun u o _ => if u = t then [o] else []

namespace Machine

/-- Of another task nothing is noted. -/
theorem settleNotes_other {t u : Nat} (hu : u ≠ t) (p : Prog E α) (w : M.World) :
    M.settleNotes (askedBy t) u p w = [] := by
  induction p generalizing w with
  | ret a => rfl
  | ask o k ih =>
    rw [settleNotes]
    split
    · rfl
    · split
      · rw [ih, askedBy, if_neg hu]
        rfl
      · rfl

/-- The notes of what is done silently are a path of the program. -/
theorem settle_path {t : Nat} {p q : Prog E α} {w w' : M.World}
    (h : M.settle t p w = some (q, w')) :
    p.Path (M.settleNotes (askedBy t) t p w).reverse q := by
  induction p generalizing w with
  | ret a =>
    cases h
    exact .refl _
  | ask o k ih =>
    rw [settle] at h
    split at h
    · rename_i ho
      cases h
      rw [settleNotes_await ho]
      exact .refl _
    · rename_i ho
      split at h
      · rename_i a w₁ he
        have hnotes : askedBy t t o w = [o] := if_pos rfl
        rw [settleNotes_sync (Bool.eq_false_iff.mpr ho) he, hnotes, List.reverse_append]
        exact .ask (ih a h)
      · cases h

end Machine

/-- What a task has asked for in a run is a path of its program, and the task is where it leads. -/
theorem Config.exists_path {t : Nat} {ms : List (Move M)} {c c' : Config M α} {p : Prog E α}
    (hp : c.tasks t = some p) (hr : c.run ms = some c') :
    ∃ q₀, p.Path (c.notes (askedBy t) ms).reverse q₀ ∧ ∀ q, c'.tasks t = some q → q = q₀ := by
  have hall : ∃ q₀, p.Path (c.notes (askedBy t) ms ++ []).reverse q₀ ∧
      ∀ q, c'.tasks t = some q → q = q₀ :=
    run_notes_induct (P := fun c l => ∃ q₀, p.Path l.reverse q₀ ∧ ∀ q, c.tasks t = some q → q = q₀)
      (S := fun _ => True) (fun c l m c₁ hc _ hm => ?_)
      ⟨p, .refl p, fun q hq => Option.some.inj (hq.symm.trans hp)⟩ (fun _ _ => trivial) hr
  · rwa [List.append_nil] at hall
  · obtain ⟨q₀, hpath, hat⟩ := hc
    rcases next_cases hm with ⟨u, i, o, k, a, w, p₁, rfl, hu, he, hset, htasks⟩ |
      ⟨e, rfl, -, htasks⟩ | ⟨u, o, k, rfl, -, -, htasks⟩
    · rw [nextNotes_pass hu he, List.append_assoc, List.reverse_append, List.reverse_append]
      by_cases hut : u = t
      · subst hut
        cases hat _ hu
        refine ⟨p₁, ?_, fun q hq => ?_⟩
        · rw [List.append_assoc]
          refine hpath.trans ?_
          simp only [askedBy, if_true, List.reverse_singleton]
          exact .ask (Machine.settle_path hset)
        · rw [htasks, Function.update_self] at hq
          exact (Option.some.inj hq).symm
      · rw [Machine.settleNotes_other hut, askedBy, if_neg hut]
        refine ⟨q₀, by simpa using hpath, fun q hq => hat q ?_⟩
        rwa [htasks, Function.update_of_ne (Ne.symm hut)] at hq
    · exact ⟨q₀, hpath, fun q hq => hat q (htasks ▸ hq)⟩
    · refine ⟨q₀, hpath, fun q hq => hat q ?_⟩
      by_cases hut : t = u
      · subst hut
        rw [htasks, Function.update_self] at hq
        cases hq
      · rwa [htasks, Function.update_of_ne hut] at hq

/-- **A task asks what its program asks.** -/
theorem Config.run_path {t : Nat} {ms : List (Move M)} {c c' : Config M α} {p q : Prog E α}
    (hp : c.tasks t = some p) (hr : c.run ms = some c') (hq : c'.tasks t = some q) :
    p.Path (c.notes (askedBy t) ms).reverse q := by
  obtain ⟨q₀, hpath, hat⟩ := exists_path hp hr
  exact hat q hq ▸ hpath

/-! ## The operations of all tasks -/

/-- A task makes an operation. -/
def asked : Observer M (Nat × E.Op) := fun t o _ => [(t, o)]

/-- The operations of a task among those of all tasks. -/
def ofTask {Op : Type} (t : Nat) (n : Nat × Op) : Option Op := if n.1 = t then some n.2 else none

/-- **One observer's notes are a part of another's**, if they are so at each operation. -/
theorem notes_filterMap {Note' : Type} {obs : Observer M Note} {obs' : Observer M Note'}
    {g : Note → Option Note'} (h : ∀ t o w, obs' t o w = (obs t o w).filterMap g)
    (ms : List (Move M)) (c : Config M α) :
    c.notes obs' ms = (c.notes obs ms).filterMap g := by
  have hsettle : ∀ (t : Nat) (p : Prog E α) (w : M.World),
      M.settleNotes obs' t p w = (M.settleNotes obs t p w).filterMap g := by
    intro t p
    induction p with
    | ret a => exact fun _ => rfl
    | ask o k ih =>
      intro w
      rw [Machine.settleNotes, Machine.settleNotes]
      split
      · rfl
      · split
        · rw [ih, h, List.filterMap_append]
        · rfl
  have hnext : ∀ (c : Config M α) (m : Move M),
      c.nextNotes obs' m = (c.nextNotes obs m).filterMap g := by
    intro c m
    cases m with
    | tick e => rfl
    | drop t => rfl
    | pass t i =>
      simp only [Config.nextNotes]
      split
      · split
        · rw [hsettle, h, List.filterMap_append]
        · rfl
      · rfl
  induction ms generalizing c with
  | nil => rfl
  | cons m ms ih =>
    simp only [Config.notes]
    split
    · rw [ih, hnext, List.filterMap_append]
    · rfl

/-- The operations of one task are those of all tasks that are its own. -/
theorem notes_askedBy (t : Nat) (ms : List (Move M)) (c : Config M α) :
    c.notes (askedBy t) ms = (c.notes asked ms).filterMap (ofTask t) :=
  notes_filterMap (fun u o _ => by by_cases hu : u = t <;> simp [askedBy, asked, ofTask, hu]) ms c

/-- Every operation of a run is one that its task's program uses. -/
theorem asked_uses {S : Nat → E.Op → Prop} {ms : List (Move M)} {c c' : Config M α}
    (hc : ∀ t p, c.tasks t = some p → p.Uses (S t)) (hr : c.run ms = some c') :
    ∀ n ∈ c.notes asked ms, S n.1 n.2 := by
  have hsettle : ∀ (t : Nat) (p : Prog E α) (w : M.World), p.Uses (S t) →
      ∀ n ∈ M.settleNotes asked t p w, S n.1 n.2 := by
    intro t p
    induction p with
    | ret a =>
      intro w _ n hn
      cases hn
    | ask o k ih =>
      intro w hp n hn
      rw [Machine.settleNotes] at hn
      split at hn
      · cases hn
      · split at hn
        · rcases List.mem_append.mp hn with hn | hn
          · exact ih _ _ (hp.2 _) n hn
          · rw [List.mem_singleton.mp hn]
            exact hp.1
        · cases hn
  have hall : (∀ t p, c'.tasks t = some p → p.Uses (S t)) ∧
      ∀ n ∈ c.notes asked ms ++ [], S n.1 n.2 :=
    Config.run_notes_induct (P := fun (c : Config M α) (l : List (Nat × E.Op)) =>
      (∀ t p, c.tasks t = some p → p.Uses (S t)) ∧ ∀ n ∈ l, S n.1 n.2) (S := fun _ => True)
      (fun c l m c₁ hcl _ hm => ?_) ⟨hc, fun n hn => by cases hn⟩ (fun _ _ => trivial) hr
  · intro n hn
    exact hall.2 n (List.mem_append_left _ hn)
  · obtain ⟨huses, hl⟩ := hcl
    have hone : c.run [m] = some c₁ := by simp only [Config.run, hm]
    refine ⟨Config.run_uses huses hone, fun n hn => ?_⟩
    rcases List.mem_append.mp hn with hn | hn
    · rcases Config.next_cases hm with ⟨u, i, o, k, a, w, p₁, rfl, hu, he, -, -⟩ |
        ⟨e, rfl, -, -⟩ | ⟨u, o, k, rfl, -, -, -⟩
      · obtain ⟨ho, hk⟩ := huses u _ hu
        rw [Config.nextNotes_pass hu he] at hn
        rcases List.mem_append.mp hn with hn | hn
        · exact hsettle u _ w (hk a) n hn
        · rw [List.mem_singleton.mp hn]
          exact ho
      · cases hn
      · cases hn
    · exact hl n hn

/-- **What every operation keeps of the world and the history**, and the environment keeps of the
world, holds at the end of every run. -/
theorem run_history (obs : Observer M Note) {J : M.World → List Note → Prop}
    (hexec : ∀ {t o i w a w' l}, J w l → M.exec t o i w = some (a, w') → J w' (obs t o w ++ l))
    (htick : ∀ {e w w' l}, J w l → M.tick e w = some w' → J w' l)
    (hdrop : ∀ {t w l}, J w l → J (M.drop t w) l) {ms : List (Move M)} {c c' : Config M α}
    (hc : J c.world []) (hr : c.run ms = some c') : J c'.world (c.notes obs ms) := by
  have hsettle : ∀ {t : Nat} {p q : Prog E α} {w w' : M.World} {l : List Note}, J w l →
      M.settle t p w = some (q, w') → J w' (M.settleNotes obs t p w ++ l) := by
    intro t p
    induction p with
    | ret a =>
      intro q w w' l hw h
      cases h
      exact hw
    | ask o k ih =>
      intro q w w' l hw h
      rw [Machine.settle] at h
      split at h
      · rename_i ho
        cases h
        rw [Machine.settleNotes_await ho]
        exact hw
      · rename_i ho
        split at h
        · rename_i a w₁ he
          rw [Machine.settleNotes_sync (Bool.eq_false_iff.mpr ho) he, List.append_assoc]
          exact ih a (hexec hw he) h
        · cases h
  have hall : J c'.world (c.notes obs ms ++ []) :=
    Config.run_notes_induct (P := fun c l => J c.world l) (S := fun _ => True)
      (fun c l m c₁ hw _ hm => ?_) hc (fun _ _ => trivial) hr
  · rwa [List.append_nil] at hall
  · rcases Config.next_cases hm with ⟨u, i, o, k, a, w, p₁, rfl, hu, he, hset, -⟩ |
      ⟨e, rfl, ht, -⟩ | ⟨u, o, k, rfl, -, hw', -⟩
    · rw [Config.nextNotes_pass hu he, List.append_assoc]
      exact hsettle (hexec hw he) hset
    · exact htick hw ht
    · exact hw' ▸ hdrop hw

/-- The notes of a run in two parts. -/
theorem notes_append {obs : Observer M Note} {ms ms' : List (Move M)} {c c₁ : Config M α}
    (hr : c.run ms = some c₁) : c.notes obs (ms ++ ms') = c₁.notes obs ms' ++ c.notes obs ms := by
  induction ms generalizing c with
  | nil =>
    cases hr
    simp [Config.notes]
  | cons m ms ih =>
    simp only [Config.run] at hr
    split at hr
    · rename_i c₂ h₂
      simp only [List.cons_append, Config.notes, h₂, ih hr, List.append_assoc]
    · cases hr

end Interact

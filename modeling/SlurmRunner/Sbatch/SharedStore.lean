/-
# Several handles of one job

Handles that were attached to one uuid share its entry in the store but not their watch channels,
and every call writes back the whole snapshot of its own handle.  So an outcome that one of them has
recorded stays while each call starts on a handle that carries it (`outcome_kept`), and any other
call that stores something takes it away (`outcomeKept_iff_current`).
-/
import SlurmRunner.Sbatch.Attach
import SlurmRunner.Sbatch.Session

namespace Sbatch

open Text Slurm Interact StateStore

/-! ## 1. Clients

A client attaches to jobs of the store and calls its handles, several of which may be of one job. -/

section Programs

variable {ι : Type} {K : ι → Type}

/-- `attach_file`, given what reading the file makes of its content. -/
def attachFile (decoded : Except SbatchAttachError SbatchJobSnapshot) :
    Prog (sig K) (Except SbatchAttachError Nat) :=
  match decoded with
  | .error e => return .error e
  | .ok snapshot => do
    let h ← newHandle snapshot
    return .ok h

end Programs

/-- What a client of one store does next. -/
inductive ClientCall where
  | attachUuid (u : Nat)
  | attachJobid (j : JobId)
  | attachFile (decoded : Except SbatchAttachError SbatchJobSnapshot)
  | request (req : Request)

inductive ClientAnswer where
  | attached (r : Except SbatchAttachError Nat)
  | returned (r : Except Str SbatchJobSnapshot)

/-- The program of a call, for handles over the dispatcher `dispatcherOf cache`. -/
def ClientCall.program (cache : Option Nat) (scan : Store → Store) :
    ClientCall → Prog (sig Key) ClientAnswer
  | .attachUuid u => return .attached (← Sbatch.attachUuid u)
  | .attachJobid j => return .attached (← Sbatch.attachJobid scan j)
  | .attachFile decoded => return .attached (← Sbatch.attachFile decoded)
  | .request req => return .returned (← req.program (dispatcherOf cache))

/-- The outcome that the store has for the uuid. -/
def Store.outcome (s : Store) (u : Nat) : Option FinishedInfo :=
  (s.load u).bind fun snap => snap.lifecycle.finished

/-- The snapshots stored since `w`, newest first. -/
def savedSince (w w' : World Key) : List SbatchJobSnapshot :=
  ((w'.saves.take (w'.saves.length - w.saves.length)).filter fun sv => sv.result = .ok ()).map
    fun sv => sv.snap

/-- No snapshot stored since `w` lacks the outcome that the store then had for its uuid, or has
another one. -/
def OutcomeKept (w w' : World Key) : Prop :=
  ∀ s ∈ savedSince w w', ∀ f, w.store.outcome s.uuid = some f → s.lifecycle.finished = some f

/-- The handle of the call carries the outcome that the store has. -/
def Current (w : World Key) : ClientCall → Prop
  | .request req => ∀ f, w.store.outcome (w.watch req.handle).uuid = some f →
      (w.watch req.handle).lifecycle.finished = some f
  | _ => True

/-! ## 2. What was stored

The saves since a moment, of which only those that went well matter. -/

section Saved

variable {t h : Nat} {w w' w'' : World Key} {new : List Save} {r : Except Str SbatchJobSnapshot}
  {snap : SbatchJobSnapshot}

/-- They are read off the list of the saves. -/
theorem savedSince_eq (hnew : w'.saves = new ++ w.saves) :
    savedSince w w' = (new.filter fun sv => sv.result = .ok ()).map fun sv => sv.snap := by
  rw [savedSince, hnew, List.length_append, Nat.add_sub_cancel, List.take_left]

/-- The log of saves has grown, and says what became of the store. -/
def Logged (t : Nat) (w w' : World Key) : Prop :=
  ∃ new, w'.saves = new ++ w.saves ∧ Stored t w.store new w'.store

/-- Nothing was saved. -/
theorem Logged.refl (t : Nat) (w : World Key) : Logged t w w := ⟨[], rfl, .nil⟩

/-- The saves of two parts. -/
theorem Logged.trans (hl : Logged t w w') (hl' : Logged t w' w'') : Logged t w w'' := by
  obtain ⟨new, hnew, hst⟩ := hl
  obtain ⟨new', hnew', hst'⟩ := hl'
  exact ⟨new' ++ new, by rw [hnew', hnew, List.append_assoc], hst.trans hst'⟩

/-- The later ones come first. -/
theorem Logged.savedSince_trans (hl : Logged t w w') (hl' : Logged t w' w'') :
    savedSince w w'' = savedSince w' w'' ++ savedSince w w' := by
  obtain ⟨new, hnew, -⟩ := hl
  obtain ⟨new', hnew', -⟩ := hl'
  have hboth : w''.saves = (new' ++ new) ++ w.saves := by rw [hnew', hnew, List.append_assoc]
  rw [savedSince_eq hnew, savedSince_eq hnew', savedSince_eq hboth, List.filter_append,
    List.map_append]

/-- A call logs its saves. -/
theorem Alone.logged (ha : Alone t h w w') : Logged t w w' := ha.saves

/-- The saves of a call run alone are those of its task. -/
theorem Alone.savedSince_of_savesOf (ha : Alone t h w w')
    (hsaves : w'.savesOf t = new ++ w.savesOf t) :
    savedSince w w' = (new.filter fun sv => sv.result = .ok ()).map fun sv => sv.snap := by
  obtain ⟨all, hall, hst⟩ := ha.saves
  have hof : w'.savesOf t = all ++ w.savesOf t := by
    rw [World.savesOf, World.savesOf, hall, List.filter_append,
      List.filter_eq_self.mpr fun sv hsv => decide_eq_true (hst.tid sv hsv)]
  have heq : new = all := List.append_cancel_right (hsaves.symm.trans hof)
  exact savedSince_eq (heq ▸ hall)

/-- A call that has done nothing has saved nothing. -/
theorem Untouched.savedSince (hun : Untouched t h w w') (ha : Alone t h w w') :
    savedSince w w' = [] := by
  have hnone : w'.savesOf t = [] ++ w.savesOf t := hun.savesOf
  exact ha.savedSince_of_savesOf hnone

/-- A commit stores its snapshot or fails. -/
theorem Committed.savedSince (hc : Committed t h snap w w' r) (ha : Alone t h w w') :
    (Sbatch.savedSince w w' = [] ∧ ∃ e, r = .error e) ∨
      Sbatch.savedSince w w' = [snap] ∧ r = .ok snap := by
  cases hc with
  | failed _ _ hsaves =>
    rw [← List.singleton_append] at hsaves
    exact .inl ⟨ha.savedSince_of_savesOf hsaves, _, rfl⟩
  | stored _ _ hsaves =>
    rw [← List.singleton_append] at hsaves
    exact .inr ⟨ha.savedSince_of_savesOf hsaves, rfl⟩

/-- An outcome that every stored snapshot of its uuid carries is still there. -/
theorem Stored.outcome {s s' : Store} {u : Nat} {f : FinishedInfo} (hst : Stored t s new s')
    (hf : s.outcome u = some f) (hkept : ∀ sv ∈ new, sv.result = .ok () → sv.snap.uuid = u →
      sv.snap.lifecycle.finished = some f) : s'.outcome u = some f := by
  induction hst with
  | nil => exact hf
  | @saved new s₁ snap _ ih =>
    have hold := ih fun sv hsv => hkept sv (List.mem_cons_of_mem _ hsv)
    unfold Store.outcome
    by_cases hu : snap.uuid = u
    · rw [← hu, Store.load_save_self]
      exact hkept _ List.mem_cons_self rfl hu
    · rw [Store.load_save_of_ne _ (Ne.symm hu)]
      exact hold
  | failed _ ih => exact ih fun sv hsv => hkept sv (List.mem_cons_of_mem _ hsv)

/-- What is kept can be looked up. -/
theorem OutcomeKept.outcome (hkept : OutcomeKept w w') (hl : Logged t w w') {u : Nat}
    {f : FinishedInfo} (hf : w.store.outcome u = some f) : w'.store.outcome u = some f := by
  obtain ⟨new, hnew, hst⟩ := hl
  refine hst.outcome hf fun sv hsv hok hu => ?_
  refine hkept sv.snap ?_ f (hu ▸ hf)
  rw [savedSince_eq hnew]
  exact List.mem_map_of_mem (List.mem_filter.mpr ⟨hsv, decide_eq_true hok⟩)

/-- Nothing was overwritten. -/
theorem OutcomeKept.refl (w : World Key) : OutcomeKept w w := by
  intro s hs
  rw [savedSince_eq (show w.saves = [] ++ w.saves from rfl)] at hs
  cases hs

/-- An outcome that is kept by both parts is kept. -/
theorem OutcomeKept.trans (hkept : OutcomeKept w w') (hl : Logged t w w')
    (hkept' : OutcomeKept w' w'') (hl' : Logged t w' w'') : OutcomeKept w w'' := by
  intro s hs f hf
  rw [hl.savedSince_trans hl'] at hs
  rcases List.mem_append.mp hs with hs | hs
  · exact hkept' s hs f (hkept.outcome hl hf)
  · exact hkept s hs f hf

end Saved

/-! ## 3. Attaching stores nothing

It only makes handles. -/

/-- A file is decoded outside, and its snapshot becomes a handle. -/
theorem attachFile_attaches {ι : Type} {K : ι → Type}
    (decoded : Except SbatchAttachError SbatchJobSnapshot) :
    (attachFile (K := K) decoded).Uses Attaches := by
  cases decoded with
  | error e => trivial
  | ok snapshot => exact Prog.uses_bind (Prog.uses_op trivial) fun _ => trivial

/-- Task `t` saved nothing and asked nothing; there may be new handles. -/
structure OnlyHandles (t : Nat) (w w' : World Key) : Prop where
  store : w'.store = w.store
  saves : w'.saves = w.saves
  idle : Idle t w → Idle t w'

/-- Nothing was made. -/
theorem OnlyHandles.refl (t : Nat) (w : World Key) : OnlyHandles t w w := ⟨rfl, rfl, id⟩

/-- Handles that were made in two parts. -/
theorem OnlyHandles.trans {t : Nat} {w w' w'' : World Key} (h : OnlyHandles t w w')
    (h' : OnlyHandles t w' w'') : OnlyHandles t w w'' :=
  ⟨h'.store.trans h.store, h'.saves.trans h.saves, fun hidle => h'.idle (h.idle hidle)⟩

/-- The passing of time makes none. -/
theorem ClockOnly.onlyHandles {t : Nat} {w w' : World Key} (hclock : ClockOnly w w') :
    OnlyHandles t w w' := by
  obtain ⟨dt, utc, st, rfl, -⟩ := hclock
  exact ⟨rfl, rfl, id⟩

/-- An operation of attaching makes a handle at most. -/
theorem exec_onlyHandles {t : Nat} {o : Op Key} {i : Input} {w w' : World Key} {a : o.Ans}
    (ho : Attaches o) (he : exec t o i w = some (a, w')) : OnlyHandles t w w' := by
  cases o with
  | store | newHandle _ =>
    cases he
    exact ⟨rfl, rfl, id⟩
  | _ => cases ho

/-- It needs no permission. -/
theorem attaches_permit {cache : Option Nat} {t : Nat} {o : Op Key} {w : World Key}
    (ho : Attaches o) : Permit (sessionAudit cache) t o w := by
  cases o with
  | store => exact fun hquiet => absurd hquiet (sessionAudit_quiet cache t)
  | newHandle snap => cases cache <;> exact ⟨trivial, False.elim⟩
  | _ => cases ho

section Calls

variable {cache : Option Nat} {t h : Nat} {w w' : World Key} {ms : List (Input ⊕ Tick)}

/-- A program that attaches leaves what is stored. -/
theorem call_attaches {α : Type} {p : Prog (sig Key) α} {a : α} (hp : p.Uses Attaches)
    (hw : Rest cache t w) (hcall : (machine Key).call t p ms w = some (a, w')) :
    Rest cache t w' ∧ OnlyHandles t w w' := by
  have hwp : (solo (sessionAudit cache)).wp t p (fun _ w' => True ∧ OnlyHandles t w w') w := by
    refine Context.wp_frame (P := Attaches) ?_ ?_ ?_ hp
      (Context.wp_of_uses (fun ho _ => attaches_permit ho) hp) (OnlyHandles.refl t w)
    · exact fun h h' => h.trans h'
    · exact fun hclock => ClockOnly.onlyHandles hclock
    · exact fun ho _ he => exec_onlyHandles ho he
  obtain ⟨⟨-, honly⟩, hi⟩ := (solo (sessionAudit cache)).wp_call ms p w a w' hw.inv hwp hcall
  exact ⟨⟨hi, honly.idle hw.idle⟩, honly⟩

/-- So it logs no save. -/
theorem OnlyHandles.logged (h : OnlyHandles t w w') : Logged t w w' :=
  ⟨[], h.saves, h.store ▸ .nil⟩

/-- And all outcomes are kept. -/
theorem OnlyHandles.outcomeKept (h : OnlyHandles t w w') : OutcomeKept w w' := by
  intro s hs
  rw [savedSince_eq (show w'.saves = [] ++ w.saves from h.saves)] at hs
  cases hs

/-! ## 4. What a call stores

A snapshot of the handle that it works on.  An outcome in the store is lost if the handle has not
got it, for the save replaces the whole snapshot. -/

/-- A refresh stores one observation of what its handle had, or nothing. -/
theorem Refreshes.savedSince {r : Except Str SbatchJobSnapshot} (href : Refreshes t h w r w')
    (ha : Alone t h w w') : (Sbatch.savedSince w w' = [] ∧ ∃ e, r = .error e) ∨
      ∃ row now, Sbatch.savedSince w w' = [(w.watch h).observed row now] ∧
        r = .ok ((w.watch h).observed row now) := by
  rcases href with ⟨hun, he⟩ | ⟨row, now, hcommit⟩
  · exact .inl ⟨hun.savedSince ha, he⟩
  · rcases hcommit.savedSince ha with hnone | hone
    · exact .inl hnone
    · exact .inr ⟨row, now, hone⟩

/-- What a finalizer stores has the uuid of its snapshot. -/
theorem Finalizes.savedSince_uuid {snap : SbatchJobSnapshot} {r : Except Str SbatchJobSnapshot}
    (hfin : Finalizes t h snap w r w') (ha : Alone t h w w') :
    ∀ s ∈ Sbatch.savedSince w w', s.uuid = snap.uuid := by
  have hcommitted : ∀ snap' : SbatchJobSnapshot, snap'.uuid = snap.uuid →
      Committed t h snap' w w' r →
      ∀ s ∈ Sbatch.savedSince w w', s.uuid = snap.uuid := by
    intro snap' huuid hcommit s hs
    rcases hcommit.savedSince ha with ⟨hnone, -⟩ | ⟨hone, -⟩
    · rw [hnone] at hs
      cases hs
    · rw [hone, List.mem_singleton] at hs
      exact hs ▸ huuid
  rcases hfin with ⟨hun, -⟩ | ⟨status, now, hcommit⟩ | ⟨outcome, now, hcommit⟩
  · rw [hun.savedSince ha]
    exact fun _ hs => by cases hs
  · exact hcommitted (snap.rolledBack status now) rfl hcommit
  · exact hcommitted (snap.stamped outcome now) rfl hcommit

/-- **A call stores its own handle's snapshot first**, if it stores anything, and more only where
that has no outcome. -/
theorem call_saves_first {req : Request} {r : Except Str SbatchJobSnapshot} (hw : Rest cache t w)
    (hcall : (machine Key).call t (req.program (dispatcherOf cache)) ms w = some (r, w')) :
    Alone t req.handle w w' ∧ (Sbatch.savedSince w w' = [] ∨
      ∃ row now later, Sbatch.savedSince w w' =
          later ++ [(w.watch req.handle).observed row now] ∧
        ∀ s ∈ later, s.uuid = (w.watch req.handle).uuid ∧
          (w.watch req.handle).lifecycle.finished = none) := by
  cases req with
  | refresh h =>
    obtain ⟨heffect, -, halone, -⟩ := call_refresh hw hcall
    refine ⟨halone, ?_⟩
    rcases heffect.savedSince halone with ⟨hnone, -⟩ | ⟨row, now, hone, -⟩
    · exact .inl hnone
    · exact .inr ⟨row, now, [], hone, fun _ hs => by cases hs⟩
  | refreshWithSacct h =>
    obtain ⟨ms₁, ms₂, r₁, w₁, -, hinner, heffect, -, halone, hcases⟩ :=
      call_refreshWithSacct hw hcall
    obtain ⟨-, -, halone₁, -⟩ := call_refresh hw hinner
    refine ⟨halone, ?_⟩
    rcases hcases with ⟨-, rfl, -⟩ | ⟨snap, hr, hdue, halone₂, hfin⟩
    · rcases heffect.savedSince halone with ⟨hnone, -⟩ | ⟨row, now, hone, -⟩
      · exact .inl hnone
      · exact .inr ⟨row, now, [], hone, fun _ hs => by cases hs⟩
    · rcases heffect.savedSince halone₁ with ⟨-, e, he⟩ | ⟨row, now, hone, hok⟩
      · exact absurd (hr.symm.trans he) (by simp)
      · have hsnap : snap = (w.watch h).observed row now := Except.ok.inj (hr.symm.trans hok)
        refine .inr ⟨row, now, Sbatch.savedSince w₁ w', ?_, fun s hs => ⟨?_, ?_⟩⟩
        · rw [halone₁.logged.savedSince_trans halone₂.logged, hone]
          rfl
        · rw [hfin.savedSince_uuid halone₂ s hs, hsnap, SbatchJobSnapshot.observed_uuid]
          rfl
        · have hnot := (Bool.and_eq_true_iff.mp hdue).1
          rw [hsnap, SbatchJobSnapshot.observed_finished] at hnot
          rw [Bool.not_eq_true', Option.isSome_eq_false_iff, Option.isNone_iff_eq_none] at hnot
          exact hnot

/-- **A call on a handle keeps the outcome that the store has** if its handle carries it, and
otherwise only by storing nothing. -/
theorem outcomeKept_iff_current {req : Request} {r : Except Str SbatchJobSnapshot}
    (hw : Rest cache t w)
    (hcall : (machine Key).call t (req.program (dispatcherOf cache)) ms w = some (r, w')) :
    OutcomeKept w w' ↔ (Sbatch.savedSince w w' ≠ [] → Current w (.request req)) := by
  obtain ⟨-, hnone | ⟨row, now, later, hsaved, hlater⟩⟩ := call_saves_first hw hcall
  · rw [OutcomeKept, hnone]
    exact ⟨fun _ h => absurd rfl h, fun _ _ hs => by cases hs⟩
  · rw [OutcomeKept, hsaved]
    constructor
    · intro hkept _ f hf
      have hfirst := hkept _ (List.mem_append_right _ List.mem_cons_self) f
        (by rwa [SbatchJobSnapshot.observed_uuid])
      rwa [SbatchJobSnapshot.observed_finished] at hfirst
    · intro hcurrent s hs f hf
      have hcarried := hcurrent (by simp)
      rcases List.mem_append.mp hs with hs | hs
      · obtain ⟨huuid, hunfinished⟩ := hlater s hs
        have hf' := hcarried f (huuid ▸ hf)
        exact absurd (hunfinished.symm.trans hf') (by simp)
      · rw [List.mem_singleton] at hs
        subst hs
        rw [SbatchJobSnapshot.observed_uuid] at hf
        rw [SbatchJobSnapshot.observed_finished]
        exact hcarried f hf

/-! ## 5. Sessions

By induction on the calls of the client. -/

/-- **The rule of a call in a session**, whether it attaches or works on a handle. -/
theorem ClientCall.call_program {scan : Store → Store} {c : ClientCall} {a : ClientAnswer}
    (hw : Rest cache t w)
    (hcall : (machine Key).call t (c.program cache scan) ms w = some (a, w')) :
    (Rest cache t w' ∧ Logged t w w') ∧ (Current w c → OutcomeKept w w') := by
  have hattach : ∀ {p : Prog (sig Key) (Except SbatchAttachError Nat)}, p.Uses Attaches →
      (machine Key).call t (do return .attached (← p)) ms w = some (a, w') →
      (Rest cache t w' ∧ Logged t w w') ∧ (Current w c → OutcomeKept w w') := by
    intro p hp hcall
    obtain ⟨hrest, honly⟩ := call_attaches (Prog.uses_bind hp fun _ => Prog.uses_ret _) hw hcall
    exact ⟨⟨hrest, honly.logged⟩, fun _ => honly.outcomeKept⟩
  cases c with
  | attachUuid u => exact hattach (attachUuid_attaches u) hcall
  | attachJobid j => exact hattach (attachJobid_attaches scan j) hcall
  | attachFile decoded => exact hattach (attachFile_attaches decoded) hcall
  | request req =>
    obtain ⟨ms₁, ms₂, r, w₁, -, hreq, hret⟩ := (machine Key).call_bind hcall
    obtain ⟨-, rfl⟩ := (machine Key).call_ret hret
    refine ⟨⟨call_rest hw hreq, (call_saves_first hw hreq).1.logged⟩, fun hcurrent => ?_⟩
    exact (outcomeKept_iff_current hw hreq).mpr fun _ => hcurrent

/-- The calls of a client leave nothing pending. -/
theorem ClientCall.serve_rest {scan : Store → Store} {uuids : Supply Nat} {utc n : Nat}
    {snaps : Nat → SbatchJobSnapshot}
    {store : Store} {steps : List (ClientCall × List (Input ⊕ Tick))} {as : List ClientAnswer}
    (hbefore : (machine Key).serve t (ClientCall.program cache scan) steps
      (World.start uuids utc n snaps store) = some (as, w)) : Rest cache t w :=
  (machine Key).serve_induct (P := fun _ _ => True) (J := Rest cache t)
    (fun _ _ _ _ _ hJ _ hc => (ClientCall.call_program hJ hc).1.1)
    (rest_start cache t uuids utc n snaps store)
    ((machine Key).meets_of_forall (fun _ _ _ => trivial) _) hbefore

/-- **A recorded outcome stays**: after any calls of a client on any handles, what the store then
has for a uuid is carried by everything that is stored under that uuid later, as long as each later
call starts on a handle that carries it. -/
theorem outcome_kept {scan : Store → Store} {uuids : Supply Nat} {utc n : Nat}
    {snaps : Nat → SbatchJobSnapshot}
    {store : Store} {steps steps' : List (ClientCall × List (Input ⊕ Tick))}
    {as as' : List ClientAnswer}
    (hbefore : (machine Key).serve t (ClientCall.program cache scan) steps
      (World.start uuids utc n snaps store) = some (as, w))
    (hcurrent : (machine Key).Meets t (ClientCall.program cache scan) Current steps' w)
    (hafter : (machine Key).serve t (ClientCall.program cache scan) steps' w = some (as', w')) :
    OutcomeKept w w' := by
  have hrest := ClientCall.serve_rest hbefore
  obtain ⟨-, -, hkept⟩ : Rest cache t w' ∧ Logged t w w' ∧ OutcomeKept w w' := by
    refine (machine Key).serve_induct (P := Current)
      (J := fun w₁ => Rest cache t w₁ ∧ Logged t w w₁ ∧ OutcomeKept w w₁) ?_
      ⟨hrest, Logged.refl t w, OutcomeKept.refl w⟩ hcurrent hafter
    rintro c ms w₁ a w₂ ⟨hrest₁, hlog₁, hkept₁⟩ hc hcall
    obtain ⟨⟨hrest₂, hlog₂⟩, hkept₂⟩ := ClientCall.call_program hrest₁ hcall
    exact ⟨hrest₂, hlog₁.trans hlog₂, hkept₁.trans hlog₁ (hkept₂ hc) hlog₂⟩
  exact hkept

end Calls

/-! ### Two handles of one job -/

/-- A `refresh_with_sacct` of job 8 that finds it completed. -/
def completesEight : List (Input ⊕ Tick) :=
  goesOn 5 ++ answers "" ++ goesOn 3 ++ answers "" ++ goesOn 1 ++ storesIt ++ goesOn 2 ++
    goesOn 3 ++ answers "" ++ goesOn 3 ++ answers "8|COMPLETED|None|0:0" ++ goesOn 2 ++ storesIt ++
    goesOn 2

/-- A `refresh` of job 8 that finds it in no listing. -/
def missesEight : List (Input ⊕ Tick) :=
  goesOn 5 ++ answers "" ++ goesOn 3 ++ answers "" ++ goesOn 1 ++ storesIt ++ goesOn 2

/-- One handle is attached before the other records the outcome. -/
def attachedEarly : List (ClientCall × List (Input ⊕ Tick)) :=
  [(.attachUuid 1, goesOn 2), (.attachUuid 1, goesOn 2),
    (.request (.refreshWithSacct 0), completesEight)]

/-- One handle is attached after the other has recorded the outcome. -/
def attachedLate : List (ClientCall × List (Input ⊕ Tick)) :=
  [(.attachUuid 1, goesOn 2), (.request (.refreshWithSacct 0), completesEight),
    (.attachUuid 1, goesOn 2)]

/-- Job 8 has been submitted under the uuid 1, and nothing is attached to it yet. -/
def jobEightStored : World Key :=
  World.start (.countFrom 0) 0 0 (fun _ => .submitted 1 8 none) [.submitted 1 8 none]

def secondMisses : List (ClientCall × List (Input ⊕ Tick)) := [(.request (.refresh 1), missesEight)]

set_option maxRecDepth 10000 in
/-- The second handle was attached late and carries the outcome. -/
theorem outcome_kept_late : ∃ as w as' w',
    (machine Key).serve 0 (ClientCall.program none id) attachedLate jobEightStored = some (as, w) ∧
      (machine Key).serve 0 (ClientCall.program none id) secondMisses w = some (as', w') ∧
      (w.store.outcome 1).isSome ∧ savedSince w w' ≠ [] ∧ OutcomeKept w w' := by
  obtain ⟨as, w, hbefore, hsome, hcarries, hsecond⟩ : ∃ as w,
      (machine Key).serve 0 (ClientCall.program none id) attachedLate jobEightStored =
        some (as, w) ∧ (w.store.outcome 1).isSome = true ∧
        w.store.outcome (w.watch 1).uuid = (w.watch 1).lifecycle.finished ∧
        ((machine Key).serve 0 (ClientCall.program none id) secondMisses w).any
          (fun r => decide (savedSince w r.2 ≠ [])) = true :=
    (machine Key).exists_serve (by decide +kernel)
  obtain ⟨⟨as', w'⟩, hafter, hsaved⟩ := (Option.any_eq_true _ _).mp hsecond
  refine ⟨as, w, as', w', hbefore, hafter, hsome, of_decide_eq_true hsaved,
    outcome_kept hbefore ?_ hafter⟩
  refine ⟨fun f hf => hcarries ▸ hf, ?_⟩
  split <;> trivial

set_option maxRecDepth 10000 in
/-- The second handle was attached early, and its next `refresh` erases the recorded outcome. -/
theorem outcome_lost : ∃ as w as' w',
    (machine Key).serve 0 (ClientCall.program none id) attachedEarly jobEightStored =
        some (as, w) ∧
      (machine Key).serve 0 (ClientCall.program none id) secondMisses w = some (as', w') ∧
      (∀ sv ∈ w'.saves, sv.result = .ok ()) ∧ (w.store.outcome 1).isSome ∧
      w'.store.outcome 1 = none ∧ ¬ OutcomeKept w w' := by
  obtain ⟨as, w, hbefore, hsome, hsecond⟩ : ∃ as w,
      (machine Key).serve 0 (ClientCall.program none id) attachedEarly jobEightStored =
        some (as, w) ∧ (w.store.outcome 1).isSome = true ∧
        ((machine Key).serve 0 (ClientCall.program none id) secondMisses w).any
          (fun r => decide ((∀ sv ∈ r.2.saves, sv.result = .ok ()) ∧ r.2.store.outcome 1 = none ∧
            ∃ s ∈ savedSince w r.2, s.uuid = 1 ∧ s.lifecycle.finished = none)) = true :=
    (machine Key).exists_serve (by decide +kernel)
  obtain ⟨⟨as', w'⟩, hafter, herased⟩ := (Option.any_eq_true _ _).mp hsecond
  obtain ⟨hok, hnone, s, hs, huuid, hunfinished⟩ := of_decide_eq_true herased
  refine ⟨as, w, as', w', hbefore, hafter, hok, hsome, hnone, fun hkept => ?_⟩
  obtain ⟨f, hf⟩ := Option.isSome_iff_exists.mp hsome
  exact absurd (hunfinished.symm.trans (hkept s hs f (huuid ▸ hf))) (by simp)

end Sbatch

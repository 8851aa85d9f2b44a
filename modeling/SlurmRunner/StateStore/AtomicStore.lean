/-
# A store with atomic operations

The store that a directory behaves like: `save`, `load` and `delete` are single operations, which
either take effect or fail.  A scan is not one operation.  It comes across the uuids one after
another, as `Scan` says, and loads each of them by a load of its own.
-/
import SlurmRunner.Interact.Logic
import SlurmRunner.StateStore.Directory

namespace StateStore

open Text Serde Interact

/-! ## 1. The operations

The world is a `Shelf`: the snapshots that are stored, and for every task the scans that it has
opened. -/

inductive AtomicOp (S : Type) where
  | save (snap : S)
  | load (u : Nat)
  | delete (u : Nat)
  | openScan
  | nextEntry

/-- `openScan` says whether there is anything to scan.  The next entry is none at the end, and an
entry that is no snapshot has no uuid. -/
def AtomicOp.Ans {S : Type} : AtomicOp S → Type
  | .save _ | .delete _ => Except FsError Unit
  | .load _ => Except FsError (Option S)
  | .openScan => Except FsError Bool
  | .nextEntry => Except FsError (Option (Option Nat))

def atomicSig (S : Type) : Sig := ⟨AtomicOp S, AtomicOp.Ans⟩

inductive AtomicIn where
  | go
  | nothing
  | tells (u : Nat)
  | other
  | fails (e : FsError)

section Atomic

variable {S : Type} (J : JobSnapshot S)

/-- An operation does what the in-memory store does, or it fails and leaves the store alone. -/
def storeExec : (o : AtomicOp S) → AtomicIn → List S → Option (o.Ans × List S)
  | .save snap, .go, m => some (.ok (), ((inMemory J).save snap m).2)
  | .load u, .go, m => some (.ok (m.find? fun s => J.uuid s = u), m)
  | .delete u, .go, m => some (.ok (), ((inMemory J).delete u m).2)
  | .save _, .fails e, m | .load _, .fails e, m | .delete _, .fails e, m => some (.error e, m)
  | _, _, _ => none

/-- The uuids whose snapshot an operation has added, replaced or removed. -/
def AtomicOp.changes (m : List S) : (o : AtomicOp S) → o.Ans → List Nat
  | .save snap, (r : Except FsError Unit) =>
    match r with
    | .ok () => [J.uuid snap]
    | .error _ => []
  | .delete u, (r : Except FsError Unit) =>
    match r with
    | .ok () => if (m.find? fun s => J.uuid s = u).isSome then [u] else []
    | .error _ => []
  | _, _ => []

/-- A store, and the scans that each task has opened. -/
abbrev Shelf (S : Type) : Type := Scanned (List S) Nat

def atomicExec (t : Nat) : (o : AtomicOp S) → AtomicIn → Shelf S → Option (o.Ans × Shelf S)
  | .openScan, .go, v => some (.ok true, v.opens t (v.here.map J.uuid))
  | .openScan, .nothing, v => if v.here.isEmpty then some (.ok false, v.opens t []) else none
  | .openScan, .fails e, v => some (.error e, v)
  | .nextEntry, .tells u, v => (v.tells t u).map fun v' => (.ok (some (some u)), v')
  | .nextEntry, .other, v => some (.ok (some none), v)
  | .nextEntry, .go, v => if v.Over t then some (.ok none, v) else none
  | .nextEntry, .fails e, v => some (.error e, v)
  | o, i, v => (storeExec J o i v.here).map fun r => (r.1, v.change r.2 (o.changes J v.here r.1))

def atomicMachine : Machine (atomicSig S) where
  World := Shelf S
  In := AtomicIn
  go := .go
  Env := Empty
  await _ := true
  exec := atomicExec J
  tick e := e.elim
  drop _ v := v

/-- The operations but those of a scan work on the snapshots alone, and the open scans note what
they change. -/
theorem atomicExec_of_storeExec {J : JobSnapshot S} {t : Nat} {o : AtomicOp S} {i : AtomicIn}
    {v : Shelf S} {a : o.Ans} {m : List S} (h : storeExec J o i v.here = some (a, m)) :
    atomicExec J t o i v = some (a, v.change m (o.changes J v.here a)) := by
  cases o with
  | openScan | nextEntry => cases i <;> cases h
  | _ => simp only [atomicExec, h, Option.map_some]

/-! ## 2. The calls

`list`, `find_by_jobid` and `find_all_by_jobid` are loops over the entries.  As the source's loop
has no bound, its rounds are counted here, and `none` says that they were used up. -/

def callStore (o : AtomicOp S) : Prog (atomicSig S) o.Ans := @Prog.op (atomicSig S) o

/-- Each uuid that the scan comes across is loaded. -/
def loadEach : Nat → Prog (atomicSig S) (Option (Except FsError (List S)))
  | 0 => return none
  | rounds + 1 => do
    let (r : Except FsError (Option (Option Nat))) ← callStore .nextEntry
    match r with
    | .error e => return some (.error e)
    | .ok none => return some (.ok [])
    | .ok (some none) => loadEach rounds
    | .ok (some (some u)) =>
      let (r : Except FsError (Option S)) ← callStore (.load u)
      match r with
      | .ok (some snap) =>
        let rest ← loadEach rounds
        return rest.map fun snaps => snaps.map (snap :: ·)
      | _ => loadEach rounds

/-- A scan is not one operation: it loads one snapshot after another. -/
def listEach (rounds : Nat) : Prog (atomicSig S) (Option (Except FsError (List S))) := do
  let (r : Except FsError Bool) ← callStore .openScan
  match r with
  | .error e => return some (.error e)
  | .ok false => return some (.ok [])
  | .ok true => loadEach rounds

/-- The calls of the store by its operations. -/
def atomicCall (rounds : Nat) : Call S → Prog (atomicSig S) (FsReply S)
  | .save snap => .done <$> callStore (.save snap)
  | .load u => .loaded <$> callStore (.load u)
  | .list => .ofScan .listed <$> listEach rounds
  | .delete u => .done <$> callStore (.delete u)
  | .findByJobid j => .ofScan (fun r => .found (r.map (firstByJobid J j))) <$> listEach rounds
  | .findAllByJobid j =>
    .ofScan (fun r => .listed (r.map (allByJobid J j))) <$> listEach rounds

end Atomic

/-! ## 3. What a scan returns

A call that scans opens at most one scan.  From the steps of the loop follows what one call returns
of its scan, and from this what all the calls of a client return. -/

section Scans

variable {S : Type} {J : JobSnapshot S}

/-- What an operation of task `t` does to the scans. -/
def AtomicOp.Scans (J : JobSnapshot S) (t : Nat) (v v' : Shelf S) : (o : AtomicOp S) → o.Ans → Prop
  | .openScan, (r : Except FsError Bool) =>
    match r with
    | .error _ => v' = v
    | .ok any => ∃ us, v' = v.opens t us ∧ (any = false → us = [])
  | .nextEntry, (r : Except FsError (Option (Option Nat))) =>
    match r with
    | .ok none => v' = v ∧ v.Over t
    | .ok (some (some u)) => v.tells t u = some v'
    | _ => v' = v
  | .load u, (r : Except FsError (Option S)) =>
    (∀ u, v.Later u v') ∧ ∀ snap, r = .ok (some snap) → J.uuid snap = u
  | .save _, _ | .delete _, _ => ∀ u, v.Later u v'

theorem scans_of_atomicExec {t : Nat} {o : AtomicOp S} {i : AtomicIn} {v v' : Shelf S} {a : o.Ans}
    (he : atomicExec J t o i v = some (a, v')) : o.Scans J t v v' a := by
  have hstore : ((storeExec J o i v.here).map fun r => (r.1, v.change r.2 (o.changes J v.here r.1)))
      = some (a, v') → (∀ u, v.Later u v') ∧ ∃ m, storeExec J o i v.here = some (a, m) := by
    intro he
    obtain ⟨⟨a', m⟩, hexec, heq⟩ := Option.map_eq_some_iff.mp he
    cases heq
    exact ⟨fun u => Scanned.later_change _, m, hexec⟩
  cases o with
  | save snap => exact (hstore he).1
  | delete u => exact (hstore he).1
  | load u =>
    obtain ⟨hlater, m, hexec⟩ := hstore he
    refine ⟨hlater, ?_⟩
    rintro snap rfl
    cases i with
    | go =>
      have hfind : v.here.find? (fun s => J.uuid s = u) = some snap := by
        injection hexec with hexec
        injection hexec with ha
        injection ha
      simpa using List.find?_some hfind
    | fails e => cases hexec
    | nothing | tells | other => cases hexec
  | openScan =>
    cases i with
    | go =>
      cases he
      exact ⟨_, rfl, fun h => by cases h⟩
    | nothing =>
      simp only [atomicExec] at he
      split at he
      · cases he
        exact ⟨[], rfl, fun _ => rfl⟩
      · cases he
    | fails e =>
      cases he
      rfl
    | tells | other => cases he
  | nextEntry =>
    cases i with
    | go =>
      simp only [atomicExec] at he
      split at he
      · rename_i hover
        cases he
        exact ⟨rfl, hover⟩
      · cases he
    | tells u =>
      obtain ⟨v₁, htells, heq⟩ := Option.map_eq_some_iff.mp he
      cases heq
      exact htells
    | other | fails e =>
      cases he
      rfl
    | nothing => cases he

/-- The other tasks change the store. -/
theorem later_of_atomicExec {t u : Nat} {o : AtomicOp S} {i : AtomicIn} {v v' : Shelf S}
    {a : o.Ans} (he : atomicExec J t o i v = some (a, v')) (hu : u ≠ t) : v.Later u v' := by
  have hscans := scans_of_atomicExec he
  cases o with
  | save snap => exact hscans u
  | delete u' => exact hscans u
  | load u' => exact hscans.1 u
  | openScan =>
    rcases a with e | any
    · cases hscans
      exact Scanned.forall₂_later_refl _
    · obtain ⟨us, rfl, -⟩ := hscans
      exact Scanned.later_update hu
  | nextEntry =>
    rcases a with e | _ | _ | u'
    · cases hscans
      exact Scanned.forall₂_later_refl _
    · obtain ⟨rfl, -⟩ := hscans
      exact Scanned.forall₂_later_refl _
    · cases hscans
      exact Scanned.forall₂_later_refl _
    · exact Scanned.later_tells hscans hu

/-- The store may change in any way while a task is suspended, but the scans of the task only
grow old. -/
def storeLogic (J : JobSnapshot S) : Logic (atomicMachine J) where
  inv _ := True
  pre _ _ _ := True
  rely t v v' := Scanned.Later t v v'
  rely_refl _ _ := Scanned.forall₂_later_refl _
  rely_trans h h' := Scanned.forall₂_later_trans h h'
  inv_exec _ _ _ := trivial
  inv_tick _ _ := trivial
  rely_tick {_ e _ _} _ _ := e.elim
  rely_exec _ _ he hu := later_of_atomicExec he hu
  inv_drop _ := trivial
  rely_drop _ _ := Scanned.forall₂_later_refl _

/-- An operation may find that the store has changed and that the own scans have grown old. -/
theorem wp_callStore {t : Nat} {o : AtomicOp S} {Q : o.Ans → Shelf S → Prop} {v : Shelf S}
    (h : ∀ v₁ a v₂, v.Later t v₁ → o.Scans J t v₁ v₂ a → Q a v₂) :
    (storeLogic J).wp t (callStore o) Q v :=
  Context.wp_await (fun _ _ _ => trivial) fun v₁ _ a v₂ hlater _ he _ =>
    h v₁ a v₂ hlater (scans_of_atomicExec he)

/-- What is returned of a scan that has come to its end, of the scans that were opened for it. -/
def FromScan (J : JobSnapshot S) : Option (Except FsError (List S)) → List (Scan Nat) → Prop
  | some (.ok snaps), own => Scan.Gives own (snaps.map J.uuid)
  | _, own => own.length ≤ 1

/-- The loop has loaded what the scan has told it. -/
theorem wp_loadEach {t rounds : Nat} {v : Shelf S} (hv : v.scans t ≠ []) :
    (storeLogic J).wp t (loadEach rounds) (fun r v' => ∃ more, Scanned.ToldOn t v v' more ∧
      ∀ snaps, r = some (.ok snaps) →
        v'.Over t ∧ (snaps.map J.uuid).Sublist more.reverse) v := by
  induction rounds generalizing v with
  | zero => exact ⟨[], .of_later (Scanned.forall₂_later_refl _) hv, fun _ h => by cases h⟩
  | succ rounds ih =>
    refine Context.wp_bind (wp_callStore fun v₁ (a : Except FsError (Option (Option Nat))) v₂
      hlater hscans => ?_)
    have hfirst := Scanned.ToldOn.of_later hlater hv
    rcases a with e | _ | _ | u
    · cases hscans
      exact ⟨[], hfirst, fun _ h => by cases h⟩
    · obtain ⟨rfl, hover⟩ := hscans
      refine ⟨[], hfirst, fun snaps h => ?_⟩
      cases h
      exact ⟨hover, .slnil⟩
    · cases hscans
      refine Context.wp_mono (ih hfirst.ne_nil) fun r v' hr => ?_
      obtain ⟨more, htold, hsnaps⟩ := hr
      have hall := hfirst.trans htold
      rw [List.append_nil] at hall
      exact ⟨more, hall, hsnaps⟩
    · have hu := hfirst.trans (.of_tells hscans)
      refine Context.wp_bind (wp_callStore fun v₃ (a : Except FsError (Option S)) v₄ hlater'
        hload => ?_)
      obtain ⟨hlater'', huuid⟩ := hload
      have hloaded : Scanned.ToldOn t v v₄ [u] :=
        hu.trans (.of_later (Scanned.forall₂_later_trans hlater' (hlater'' t)) hu.ne_nil)
      -- a load that fails or misses is passed over
      have hskip : (storeLogic J).wp t (loadEach rounds) (fun r v' => ∃ more,
          Scanned.ToldOn t v v' more ∧ ∀ snaps, r = some (.ok snaps) →
            v'.Over t ∧ (snaps.map J.uuid).Sublist more.reverse) v₄ := by
        refine Context.wp_mono (ih hloaded.ne_nil) fun r v' hr => ?_
        obtain ⟨more, htold, hsnaps⟩ := hr
        refine ⟨more ++ [u], hloaded.trans htold, fun snaps h => ?_⟩
        obtain ⟨hover, hsub⟩ := hsnaps snaps h
        rw [List.reverse_append]
        exact ⟨hover, hsub.trans (List.sublist_cons_self u _)⟩
      rcases a with e | _ | snap
      · exact hskip
      · exact hskip
      · obtain rfl : J.uuid snap = u := huuid snap rfl
        refine Context.wp_bind (Context.wp_mono (ih hloaded.ne_nil) fun r v' hr => ?_)
        obtain ⟨more, htold, hsnaps⟩ := hr
        refine ⟨more ++ [J.uuid snap], hloaded.trans htold, fun snaps h => ?_⟩
        rcases r with _ | e | rest
        · cases h
        · cases h
        · cases h
          obtain ⟨hover, hsub⟩ := hsnaps rest rfl
          rw [List.reverse_append]
          exact ⟨hover, hsub.cons_cons _⟩

/-- What `list` returns comes from a scan of its own. -/
theorem wp_listEach (t rounds : Nat) (v : Shelf S) :
    (storeLogic J).wp t (listEach rounds) (fun r v' => ∃ own before, v'.scans t = own ++ before ∧
      List.Forall₂ Scan.Later (v.scans t) before ∧ FromScan J r own) v := by
  refine Context.wp_bind (wp_callStore fun v₁ (a : Except FsError Bool) v₂ hlater hscans => ?_)
  rcases a with e | any
  · cases hscans
    exact ⟨[], _, rfl, hlater, Nat.zero_le _⟩
  · obtain ⟨us, rfl, hnothing⟩ := hscans
    have hopened : (v₁.opens t us).scans t = .opens us :: v₁.scans t := Function.update_self ..
    cases any with
    | false =>
      obtain rfl := hnothing rfl
      exact ⟨[.opens []], v₁.scans t, hopened, hlater, Scan.opens_over.gives .slnil⟩
    | true =>
      have hne : (v₁.opens t us).scans t ≠ [] := by
        rw [hopened]
        exact List.cons_ne_nil _ _
      refine Context.wp_mono (wp_loadEach hne) fun r v' hr => ?_
      obtain ⟨more, ⟨sc, earlier, sc', earlier', hsc, hsc', htold, hearlier⟩, hsnaps⟩ := hr
      cases hopened.symm.trans hsc
      have hnew : sc'.told = more := htold.trans (List.append_nil more)
      refine ⟨[sc'], earlier', hsc', Scanned.forall₂_later_trans hlater hearlier, ?_⟩
      rcases r with _ | e | snaps
      · exact Nat.le_refl 1
      · exact Nat.le_refl 1
      · obtain ⟨hover, hsub⟩ := hsnaps snaps rfl
        obtain ⟨sc₁, _, heq, hover⟩ := Scanned.over_iff.mp hover
        cases hsc'.symm.trans heq
        exact hover.gives (hnew ▸ hsub)

/-- What a reply has to do with the scans that were opened for it: a call that scans opens one,
unless this fails. -/
def FsReply.From (J : JobSnapshot S) : FsReply S → List (Scan Nat) → Prop
  | .done _, own | .loaded _, own => own = []
  | .listed (.ok snaps), own => Scan.Gives own (snaps.map J.uuid)
  | .found (.ok snap), own => Scan.Gives own (snap.toList.map J.uuid)
  | .listed (.error _), own | .found (.error _), own | .scanning, own => own.length ≤ 1

/-- The replies to the calls of one client and the scans that were opened for it, both in their
order. -/
def RepliesFrom (J : JobSnapshot S) : List (FsReply S) → List (Scan Nat) → Prop
  | [], scans => scans = []
  | r :: rs, scans => ∃ own rest, scans = own ++ rest ∧ r.From J own ∧ RepliesFrom J rs rest

/-- What was returned stays true while the scans grow old. -/
theorem FsReply.From.later {r : FsReply S} {own own' : List (Scan Nat)} (h : r.From J own)
    (hlater : List.Forall₂ Scan.Later own own') : r.From J own' := by
  have hlength : own.length ≤ 1 → own'.length ≤ 1 := fun hle => hlater.length_eq ▸ hle
  rcases r with r | r | (e | snaps) | (e | snap) | _
  case done | loaded =>
    cases h
    cases hlater
    rfl
  case listed.error | found.error | scanning => exact hlength h
  case listed.ok | found.ok => exact Scan.Gives.later h hlater

theorem RepliesFrom.later {rs : List (FsReply S)} {scans scans' : List (Scan Nat)}
    (h : RepliesFrom J rs scans) (hlater : List.Forall₂ Scan.Later scans scans') :
    RepliesFrom J rs scans' := by
  induction rs generalizing scans scans' with
  | nil =>
    cases h
    cases hlater
    rfl
  | cons r rs ih =>
    obtain ⟨own, rest, rfl, hr, hrs⟩ := h
    obtain ⟨own', rest', rfl, hown, hrest⟩ := Scanned.forall₂_later_append hlater
    exact ⟨own', rest', rfl, hr.later hown, ih hrs hrest⟩

/-- A call opens one scan at most. -/
theorem FsReply.From.length_le {r : FsReply S} {own : List (Scan Nat)} (h : r.From J own) :
    own.length ≤ 1 := by
  rcases r with r | r | (e | snaps) | (e | snap) | _
  case done | loaded =>
    cases h
    exact Nat.zero_le 1
  case listed.error | found.error | scanning => exact h
  case listed.ok | found.ok =>
    obtain ⟨sc, rfl, -⟩ := h
    exact Nat.le_refl 1

/-- A reply that is made of what `list` returns. -/
theorem FromScan.from {reply : Except FsError (List S) → FsReply S}
    {r : Option (Except FsError (List S))} {own : List (Scan Nat)} (h : FromScan J r own)
    (hok : ∀ snaps, Scan.Gives own (snaps.map J.uuid) → (reply (.ok snaps)).From J own)
    (herror : ∀ e, own.length ≤ 1 → (reply (.error e)).From J own) :
    (FsReply.ofScan reply r).From J own := by
  rcases r with _ | e | snaps
  · exact h
  · exact herror e h
  · exact hok snaps h

/-- The scans of the task are those that were opened for this call and the earlier ones. -/
def Opened (J : JobSnapshot S) (t : Nat) (v : Shelf S) (r : FsReply S) (v' : Shelf S) : Prop :=
  ∃ own before, v'.scans t = own ++ before ∧ List.Forall₂ Scan.Later (v.scans t) before ∧
    r.From J own

/-- **What one call returns comes from a scan of its own.** -/
theorem wp_atomicCall (t rounds : Nat) (call : Call S) (v : Shelf S) :
    (storeLogic J).wp t (atomicCall J rounds call) (Opened J t v) v := by
  have hscan : ∀ {reply : Except FsError (List S) → FsReply S},
      (∀ own snaps, Scan.Gives own (snaps.map J.uuid) → (reply (.ok snaps)).From J own) →
      (∀ own e, own.length ≤ 1 → (reply (.error e)).From J own) →
      (storeLogic J).wp t (.ofScan reply <$> listEach rounds) (Opened J t v) v := by
    intro reply hok herror
    refine Context.wp_map _ (Context.wp_mono (wp_listEach t rounds v) fun r v' hr => ?_)
    obtain ⟨own, before, hscans, hlater, hfrom⟩ := hr
    exact ⟨own, before, hscans, hlater, hfrom.from (hok own) (herror own)⟩
  cases call with
  | save snap =>
    refine Context.wp_map _ (wp_callStore fun v₁ a v₂ hlater hscans => ?_)
    exact ⟨[], _, rfl, Scanned.forall₂_later_trans hlater (hscans t), rfl⟩
  | load u =>
    refine Context.wp_map _ (wp_callStore fun v₁ a v₂ hlater hscans => ?_)
    exact ⟨[], _, rfl, Scanned.forall₂_later_trans hlater (hscans.1 t), rfl⟩
  | delete u =>
    refine Context.wp_map _ (wp_callStore fun v₁ a v₂ hlater hscans => ?_)
    exact ⟨[], _, rfl, Scanned.forall₂_later_trans hlater (hscans t), rfl⟩
  | list => exact hscan (fun _ _ h => h) fun _ _ h => h
  | findByJobid j =>
    refine hscan (fun own snaps h => h.sublist (List.Sublist.map _ ?_)) fun _ _ h => h
    rw [firstByJobid]
    cases hfind : snaps.find? (fun s => J.jobid s = some j) with
    | none => exact List.nil_sublist _
    | some snap => exact List.singleton_sublist.mpr (List.mem_of_find?_eq_some hfind)
  | findAllByJobid j =>
    exact hscan (fun own snaps h => h.sublist (List.filter_sublist.map _)) fun _ _ h => h

/-- What the calls of one client return comes from the scans that were opened for them. -/
theorem wp_client (t rounds : Nat) (calls : List (Call S)) (v : Shelf S) :
    (storeLogic J).wp t (clientOf (atomicCall J rounds) calls) (fun rs v' => ∃ own before,
      v'.scans t = own ++ before ∧ List.Forall₂ Scan.Later (v.scans t) before ∧
        RepliesFrom J rs own.reverse) v := by
  induction calls generalizing v with
  | nil => exact ⟨[], _, rfl, Scanned.forall₂_later_refl _, rfl⟩
  | cons call calls ih =>
    refine Context.wp_seq (wp_atomicCall t rounds call v) fun r v₁ hr => ?_
    obtain ⟨own, before, hscans, hlater, hfrom⟩ := hr
    refine Context.wp_bind (Context.wp_mono (ih v₁) fun rs v' hrs => ?_)
    obtain ⟨owns, before', hscans', hlater', hfroms⟩ := hrs
    rw [hscans] at hlater'
    obtain ⟨own', before'', rfl, hown, hbefore⟩ := Scanned.forall₂_later_append hlater'
    refine ⟨owns ++ own', before'', ?_, Scanned.forall₂_later_trans hlater hbefore, own',
      owns.reverse, ?_, hfrom.later hown, hfroms⟩
    · rw [hscans', List.append_assoc]
    · have hone : own'.reverse = own' := by
        have hle := (hfrom.later hown).length_le
        match own', hle with
        | [], _ => rfl
        | [sc], _ => rfl
      rw [List.reverse_append, hone]

/-- **What is returned of a scan comes from it**, in every run of clients. -/
theorem replies_of_run {clients rounds : Nat} {calls : Nat → List (Call S)} {m : List S}
    {ms : List (Move (atomicMachine J))} {d : Config (atomicMachine J) (List (FsReply S))}
    {t : Nat} {rs : List (FsReply S)}
    (hr : (startClients (atomicMachine J) (atomicCall J rounds) clients calls (.start m)).run ms
      = some d) (hres : d.result t = some rs) :
    RepliesFrom J rs (d.world.scans t).reverse := by
  have hsafe : Config.Safe (storeLogic J)
      (fun t rs (v : Shelf S) => RepliesFrom J rs (v.scans t).reverse)
      (startClients (atomicMachine J) (atomicCall J rounds) clients calls (.start m)) := by
    refine ⟨trivial, fun u p _ => ?_, fun u p hp => ?_⟩
    · cases p <;> trivial
    · simp only [startClients] at hp
      split at hp
      · cases hp
        refine Context.wp_mono (wp_client u rounds (calls u) _) fun rs v' hrs => ?_
        obtain ⟨own, before, hscans, hlater, hfrom⟩ := hrs
        cases hlater
        rwa [hscans, List.append_nil]
      · cases hp
  refine (Config.run_sound (fun _ _ _ _ h hlater => h.later ?_) hsafe hr).post hres
  exact List.rel_reverse hlater

end Scans

end StateStore

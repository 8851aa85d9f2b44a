/-
# What the readers of a tssrun job have done

A reader that has come to its end has asked for just what its lines ask for, in their order.  The
operations of one reader are a part of the history of the run, and the snapshot is what the history
makes of it.  So the sink has been offered every line, and a field of the snapshot has the banner
that comes first in the history, whichever stream it was on.
-/
import SlurmRunner.Tssrun.Drain

namespace Tssrun

open Text Interact

/-! ## 1. What a reader has done

The operations that a reader asks for on the way to its end are those for the lines it has read, in
their order.  `Path` lists the operations that a program has asked for so far. -/

/-- The operation on the sink, the snapshot and the store. -/
def DrainOp.base? : DrainOp → Option Op
  | .base o => some o
  | _ => none

/-- What an operation selects, of all those of the handle. -/
def selects {β : Type} (sel : Op → Option β) (o : DrainOp) : Option β := o.base?.bind sel

/-- The operations that `handled` makes. -/
def carriedOut (store : Bool) : Op → List DrainOp
  | .save snap => if store then [.base (.save snap)] else []
  | o => [.base o]

/-- A program that is a single operation asks for this one. -/
theorem drainOp_path {o : DrainOp} {x : o.Ans} {os : List DrainOp}
    (h : (drainOp o).Path os (.ret x)) : os = [o] :=
  Prog.path_op (E := drainSig) h

/-- An operation on the job is asked for as such, if the handle has what it needs. -/
theorem handled_path {store : Bool} (o : Op) (x : o.Ans) (os : List DrainOp)
    (h : (handled store o).Path os (.ret x)) : os = carriedOut store o := by
  cases o with
  | save snap =>
    cases store with
    | true => exact drainOp_path h
    | false => exact (Prog.path_ret h).1
  | _ => exact drainOp_path h

/-- The operations of a program that is carried out on the handle are those of the program. -/
theorem lower_path {store : Bool} {p : Prog sig Unit} {os : List DrainOp}
    (h : (p.lower (handled store)).Path os (.ret ())) :
    ∃ os' : List Op, p.Path os' (.ret ()) ∧ os = os'.flatMap (carriedOut store) :=
  Prog.path_lower handled_path h

/-- A reader is in its stream, or it has read it all. -/
theorem teeTask_path {store : Bool} {kind : LogStream} {bytes : List UInt8} {os : List DrainOp}
    {q : Prog drainSig (Option WaitResult)} (h : (teeTask store kind bytes).Path os q) :
    (.endTee kind ∉ os) ∨ ∃ os' : List Op, ∃ os₂ : List DrainOp,
      (teeStream kind bytes).Path os' (.ret ()) ∧ (∀ o ∈ os₂, o = .endTee kind) ∧
        os = os'.flatMap (carriedOut store) ++ os₂ := by
  rcases Prog.path_bind_cases h with ⟨p', hp⟩ | ⟨_, os₁, os₂, h₁, h₂, rfl⟩
  · exact .inl fun hend => (hp.uses (teeStream_uses store kind bytes) _ hend).2 kind rfl
  · obtain ⟨os', hpath, rfl⟩ := lower_path h₁
    refine .inr ⟨os', os₂, hpath, ?_, rfl⟩
    exact h₂.uses (Prog.uses_bind (drainOp_uses rfl) fun _ => Prog.uses_ret _)

section Selection

variable {β : Type} {sel : Op → Option β} (hsel : ∀ o v, sel o = some v → o.handles = true)

include hsel

/-- The handle carries out all the operations that set a field. -/
theorem filterMap_carriedOut (store : Bool) (os : List Op) :
    (os.flatMap (carriedOut store)).filterMap (selects sel) = os.filterMap sel := by
  induction os with
  | nil => rfl
  | cons o os ih =>
    have hone : (carriedOut store o).filterMap (selects sel) = [o].filterMap sel := by
      cases o with
      | save snap =>
        have hnone : sel (.save snap) = none :=
          Option.eq_none_iff_forall_ne_some.mpr fun v hv => by cases hsel _ v hv
        cases store <;> simp [carriedOut, selects, DrainOp.base?, hnone]
      | _ => rfl
    rw [List.flatMap_cons, List.filterMap_append, hone, ih, ← List.filterMap_append]
    rfl

/-- Only operations that set a field are selected. -/
theorem filterMap_filter_handles (os : List Op) :
    (os.filter Op.handles).filterMap sel = os.filterMap sel := by
  rw [List.filterMap_filter]
  refine List.filterMap_congr fun o _ => ?_
  split
  · rfl
  · rename_i ho
    exact (Option.eq_none_iff_forall_ne_some.mpr fun v hv => ho (hsel o v hv)).symm

/-- **A reader that has come to its end has handled every line**, in order. -/
theorem reader_path {store : Bool} {kind : LogStream} {bytes : List UInt8} {text : Str}
    (htext : fromUtf8 bytes = some text) {os : List DrainOp} {q : Prog drainSig (Option WaitResult)}
    (h : (teeTask store kind bytes).Path os q) (hend : .endTee kind ∈ os) :
    os.filterMap (selects sel) =
      (lines text).flatMap fun line => (handling kind line).filterMap sel := by
  rcases teeTask_path h with hnot | ⟨os', os₂, hpath, hlast, rfl⟩
  · exact absurd hend hnot
  · rw [teeStream, teeReads_eq, nextLines_of_fromUtf8 htext, linesRead_map_ok] at hpath
    have hnone : os₂.filterMap (selects sel) = [] := by
      refine List.filterMap_eq_nil_iff.mpr fun o ho => ?_
      rw [hlast o ho]
      rfl
    rw [List.filterMap_append, hnone, List.append_nil, filterMap_carriedOut hsel,
      ← filterMap_filter_handles hsel, teeLines_path hpath, List.filterMap_flatMap]

end Selection

/-! ## 2. The history of a run

The history is the list of the operations that were carried out.  A `Banner` is one of the values
that the readers look for in a line, `jobid` or `node`; the watch has the first of its kind. -/

/-- The operations of a run, each with its task, in the order in which they were made. -/
def history (c : Config drainMachine (Option WaitResult)) (ms : List (Move drainMachine)) :
    List (Nat × DrainOp) :=
  (c.notes (asked (M := drainMachine)) ms).reverse

/-- The line that an operation offers the sink, of the lines of a stream. -/
def appended (kind : LogStream) : Op → Option Str
  | .append k line => if k = kind then some line else none
  | _ => none

/-- The lines of a stream that the sink was offered, by whatever task. -/
def offeredLines (kind : LogStream) (h : List (Nat × DrainOp)) : List Str :=
  h.filterMap fun n => selects (appended kind) n.2

/-- The watch value after an operation on it. -/
def watchAfter (o : Op) (watch : TssrunJobSnapshot) : TssrunJobSnapshot :=
  match o with
  | .setJobid jid => { watch with jobid := watch.jobid.or (some jid) }
  | .setNode node => { watch with node := watch.node.or (some node) }
  | .setFinished info => { watch with finished := some info }
  | .sendReplace snap => snap
  | _ => watch

theorem or_eq_left {α : Type} {v v' : Option α} (h : ¬ v.isNone = true) : v.or v' = v :=
  Option.or_of_isSome (Option.isSome_iff_ne_none.mpr (by simpa using h))

/-- What an operation does to the watch. -/
theorem watch_exec {t : Nat} {o : Op} {i : Input} {w w' : World} {a : o.Ans}
    (he : exec t o i w = some (a, w')) : w'.watch = watchAfter o w.watch := by
  cases o with
  | setJobid jid =>
    simp only [exec] at he
    split at he
    · rename_i hnone
      cases he
      rw [watchAfter, Option.isNone_iff_eq_none.mp hnone]
      rfl
    · rename_i hsome
      cases he
      rw [watchAfter, or_eq_left hsome]
  | setNode node =>
    simp only [exec] at he
    split at he
    · rename_i hnone
      cases he
      rw [watchAfter, Option.isNone_iff_eq_none.mp hnone]
      rfl
    · rename_i hsome
      cases he
      rw [watchAfter, or_eq_left hsome]
  | nextLine | borrow | sleep | setFinished _ | sendReplace _ =>
    cases he
    rfl
  | append _ _ | save _ | childWait | nowUnix | flush | load =>
    cases i <;> cases he
    rfl

/-- A banner: how a line is parsed for it, the operation that reports it, and the field of the
snapshot that keeps the first. -/
structure Banner (α : Type) where
  parse : Str → Option α
  reports : Op → Option α
  field : TssrunJobSnapshot → Option α
  reports_handles : ∀ o v, reports o = some v → o.handles = true
  reports_asks : ∀ {t o v}, reports o = some v → Asks t (.base o) →
    ∃ kind : LogStream, t = kind.task
  reports_handling : ∀ kind line, (handling kind line).filterMap reports = (parse line).toList
  field_watchAfter : ∀ {t o watch}, Asks t (.base o) →
    field (watchAfter o watch) = (field watch).or (reports o)

def jobidBanner : Banner UInt64 where
  parse := parseSallocJobid
  reports
    | .setJobid jid => some jid
    | _ => none
  field := TssrunJobSnapshot.jobid
  reports_handles o v h := by cases o <;> first | rfl | cases h
  reports_asks {t o v} h ha := by cases o <;> first | exact ha | cases h
  reports_handling kind line := by
    unfold handling
    cases parseSallocJobid line <;> cases parseSallocNode line <;> rfl
  field_watchAfter {t o watch} ha := by
    cases o <;> first | rfl | exact ha.elim | exact Option.or_none.symm

def nodeBanner : Banner Str where
  parse := parseSallocNode
  reports
    | .setNode node => some node
    | _ => none
  field := TssrunJobSnapshot.node
  reports_handles o v h := by cases o <;> first | rfl | cases h
  reports_asks {t o v} h ha := by cases o <;> first | exact ha | cases h
  reports_handling kind line := by
    unfold handling
    cases parseSallocJobid line <;> cases parseSallocNode line <;> rfl
  field_watchAfter {t o watch} ha := by
    cases o <;> first | rfl | exact ha.elim | exact Option.or_none.symm

namespace Banner

variable {α : Type} (b : Banner α)

/-- The banners that a run has found, in order. -/
def found (h : List (Nat × DrainOp)) : List α := h.filterMap fun n => selects b.reports n.2

/-- Those of one stream. -/
def foundOn (kind : LogStream) (h : List (Nat × DrainOp)) : List α :=
  (h.filterMap (ofTask kind.task)).filterMap (selects b.reports)

/-- What a drain leaves of a banner, after the moves `ms` from `c₀` to `c`. -/
structure Settled (text : LogStream → Str) (c₀ c : Config drainMachine (Option WaitResult))
    (ms : List (Move drainMachine)) : Prop where
  /-- Those of a stream were found in the order of its lines. -/
  foundOn : ∀ kind, b.foundOn kind (history c₀ ms) = (lines (text kind)).filterMap b.parse
  /-- The snapshot has the one that was found first. -/
  first : b.field c.world.base.watch = (b.found (history c₀ ms)).head?
  isSome_iff : (b.field c.world.base.watch).isSome = true ↔
    ∃ kind, ∃ line ∈ lines (text kind), (b.parse line).isSome = true
  /-- It has not changed since it was set. -/
  kept : ∀ before after c₁ v, ms = before ++ after → c₀.run before = some c₁ →
    b.field c₁.world.base.watch = some v → b.field c.world.base.watch = some v

end Banner

section Runs

variable {init : TssrunJobSnapshot} {first : Option (Except Str Unit)}
  {bytes : LogStream → List UInt8} {waits : Nat → Bool} {ms : List (Move drainMachine)}
  {c : Config drainMachine (Option WaitResult)}

/-- Every operation of the history is one that its task may ask for. -/
theorem history_asks (hrun : (drained init first bytes waits).run ms = some c) :
    ∀ n ∈ history (drained init first bytes waits) ms, Asks n.1 n.2 := by
  intro n hn
  exact asked_uses drained_uses hrun n (List.mem_reverse.mp hn)

/-- At the start the watch has the snapshot of the spawn. -/
theorem spawned_watch (init : TssrunJobSnapshot) (first : Option (Except Str Unit)) :
    (DrainWorld.spawned init first).base.watch = init := by
  cases first <;> rfl

/-- What an operation can do: all but those of the base keep the snapshot. -/
theorem drainExec_cases {t : Nat} {o : DrainOp} {i : Input} {w w' : DrainWorld} {a : o.Ans}
    (he : drainExec t o i w = some (a, w')) :
    (∃ o' base child, o = .base o' ∧ w' = { w with base := base, child := child }) ∨
    w' = w ∨
    (o = .takeWait ∧ w.taker = none ∧ w' = { w with taker := some t }) ∨
    (∃ kind, o = .takeTee kind ∧
      w' = { w with teeHandle := Function.update w.teeHandle kind false }) ∨
    (∃ kind, o = .endTee kind ∧
      w' = { w with teeEnded := Function.update w.teeEnded kind true }) ∨
    (∃ r, o = .endWait r ∧ w' = { w with waitEnded := some r }) := by
  cases o with
  | base o =>
    obtain ⟨r, -, hr⟩ := Option.map_eq_some_iff.mp he
    cases hr
    exact .inl ⟨o, _, _, rfl, rfl⟩
  | takeWait =>
    simp only [drainExec] at he
    split at he
    · rename_i hnone
      cases he
      exact .inr (.inr (.inl ⟨rfl, Option.isNone_iff_eq_none.mp hnone, rfl⟩))
    · cases he
      exact .inr (.inl rfl)
  | takeTee kind =>
    cases he
    exact .inr (.inr (.inr (.inl ⟨kind, rfl, rfl⟩)))
  | joinTee kind =>
    simp only [drainExec] at he
    split at he
    · cases he
      exact .inr (.inl rfl)
    · cases he
  | joinWait =>
    obtain ⟨r, -, hr⟩ := Option.map_eq_some_iff.mp he
    cases hr
    exact .inr (.inl rfl)
  | endTee kind =>
    cases he
    exact .inr (.inr (.inr (.inr (.inl ⟨kind, rfl, rfl⟩))))
  | endWait r =>
    cases he
    exact .inr (.inr (.inr (.inr (.inr ⟨r, rfl, rfl⟩))))

/-- The operations of the join handles leave the job alone. -/
theorem base_of_drainExec {t : Nat} {o : DrainOp} {i : Input} {w w' : DrainWorld} {a : o.Ans}
    (ho : o.base? = none) (he : drainExec t o i w = some (a, w')) : w'.base = w.base := by
  rcases drainExec_cases he with ⟨o', _, _, rfl, -⟩ | rfl | ⟨-, -, rfl⟩ | ⟨_, -, rfl⟩ |
    ⟨_, -, rfl⟩ | ⟨_, -, rfl⟩
  · cases ho
  all_goals rfl

/-- Only the end of a reader marks it as ended. -/
theorem teeEnded_of_drainExec {t : Nat} {o : DrainOp} {i : Input} {w w' : DrainWorld} {a : o.Ans}
    {kind : LogStream} (ho : o ≠ .endTee kind) (he : drainExec t o i w = some (a, w')) :
    w'.teeEnded kind = w.teeEnded kind := by
  rcases drainExec_cases he with ⟨_, _, _, -, rfl⟩ | rfl | ⟨-, -, rfl⟩ | ⟨_, -, rfl⟩ |
    ⟨k, rfl, rfl⟩ | ⟨_, -, rfl⟩
  case inr.inr.inr.inr.inl => exact Function.update_of_ne (fun h => ho (by rw [h])) _ _
  all_goals rfl

/-- The same for the watch behind the join handles. -/
theorem watch_drainExec {t : Nat} {o : Op} {i : Input} {w w' : DrainWorld} {a : o.Ans}
    (he : drainExec t (.base o) i w = some (a, w')) :
    w'.base.watch = watchAfter o w.base.watch := by
  obtain ⟨⟨a', base⟩, hbase, hr⟩ := Option.map_eq_some_iff.mp he
  cases hr
  exact watch_exec hbase

/-- What was found so far, and then what comes after it. -/
theorem Banner.found_append {α : Type} (b : Banner α) (h h' : List (Nat × DrainOp)) :
    b.found (h ++ h') = b.found h ++ b.found h' := List.filterMap_append

/-- One step: what is reported counts if nothing was found before. -/
theorem Banner.field_exec {α : Type} (b : Banner α) {t : Nat} {o : DrainOp} {i : Input}
    {w w' : DrainWorld} {a : o.Ans} {h : List (Nat × DrainOp)}
    (hw : b.field w.base.watch = (b.found h).head?) (ho : Asks t o)
    (he : drainExec t o i w = some (a, w')) :
    b.field w'.base.watch = (b.found (h ++ [(t, o)])).head? := by
  have hlast : b.found [(t, o)] = (selects b.reports o).toList := by
    rw [Banner.found, List.filterMap_cons]
    cases selects b.reports o <;> rfl
  rw [b.found_append, List.head?_append, ← hw, hlast]
  cases o with
  | base o =>
    rw [watch_drainExec he, b.field_watchAfter ho]
    cases hr : b.reports o <;> simp [selects, DrainOp.base?, hr]
  | _ =>
    rw [base_of_drainExec rfl he]
    exact Option.or_none.symm

/-- **The snapshot has the banner that was found first.** -/
theorem Banner.field_eq_head? {α : Type} (b : Banner α) (hinit : b.field init = none)
    (hrun : (drained init first bytes waits).run ms = some c) :
    b.field c.world.base.watch = (b.found (history (drained init first bytes waits) ms)).head? := by
  refine run_history asked (J := fun (w : DrainWorld) (l : List (Nat × DrainOp)) =>
    (∀ n ∈ l, Asks n.1 n.2) → b.field w.base.watch = (b.found l.reverse).head?)
    (fun {t o i w a w' l} hJ he hasks => ?_) (fun hJ ht => ?_) (fun hJ => hJ)
    (fun _ => (congrArg b.field (spawned_watch init first)).trans hinit) hrun
    (asked_uses drained_uses hrun)
  · have hlast : b.field w'.base.watch = (b.found (l.reverse ++ [(t, o)])).head? :=
      b.field_exec (hJ fun n hn => hasks n (List.mem_append_right _ hn))
        (hasks (t, o) (List.mem_append_left _ List.mem_cons_self)) he
    rw [← List.reverse_cons] at hlast
    exact hlast
  · cases ht
    exact hJ

/-- A tee task that counts as ended has come to its end. -/
theorem endTee_of_teeEnded (hrun : (drained init first bytes waits).run ms = some c)
    {kind : LogStream} (hend : c.world.teeEnded kind = true) :
    (kind.task, .endTee kind) ∈ history (drained init first bytes waits) ms := by
  have hnoted : ∃ t, (t, .endTee kind) ∈ (drained init first bytes waits).notes
      (asked (M := drainMachine)) ms := by
    refine run_history asked (J := fun (w : DrainWorld) (l : List (Nat × DrainOp)) =>
      w.teeEnded kind = true → ∃ t, (t, .endTee kind) ∈ l) (fun {t o i w a w' l} hJ he hend => ?_)
      (fun hJ ht => ?_) (fun hJ => hJ) (fun h => by cases h) hrun hend
    · by_cases ho : o = .endTee kind
      · exact ⟨t, List.mem_append_left _ (ho ▸ List.mem_cons_self)⟩
      · have hold : w.teeEnded kind = true := by
          rw [← teeEnded_of_drainExec ho he]
          exact hend
        obtain ⟨u, hu⟩ := hJ hold
        exact ⟨u, List.mem_append_right _ hu⟩
    · cases ht
      exact hJ
  obtain ⟨t, ht⟩ := hnoted
  have htask : t = kind.task := asked_uses drained_uses hrun _ ht
  exact List.mem_reverse.mpr (htask ▸ ht)

/-- **What a reader that has come to its end has done** is what its lines ask for. -/
theorem reader_history {β : Type} {sel : Op → Option β}
    (hsel : ∀ o v, sel o = some v → o.handles = true) {kind : LogStream} {text : Str}
    (htext : fromUtf8 (bytes kind) = some text)
    (hrun : (drained init first bytes waits).run ms = some c)
    (hend : c.world.teeEnded kind = true) :
    ((history (drained init first bytes waits) ms).filterMap (ofTask kind.task)).filterMap
      (selects sel) = (lines text).flatMap fun line => (handling kind line).filterMap sel := by
  obtain ⟨q, hpath, -⟩ := Config.exists_path (tasks_reader kind) hrun
  have hops : ((drained init first bytes waits).notes (askedBy kind.task) ms).reverse =
      (history (drained init first bytes waits) ms).filterMap (ofTask kind.task) :=
    (congrArg List.reverse (notes_askedBy kind.task ms _)).trans (List.filterMap_reverse ..).symm
  rw [hops] at hpath
  refine reader_path hsel htext hpath (List.mem_filterMap.mpr ?_)
  exact ⟨_, endTee_of_teeEnded hrun hend, if_pos rfl⟩

/-- What only one task does is found among the operations of that task. -/
theorem filterMap_ofTask {β : Type} {sel : Op → Option β} {t : Nat} {h : List (Nat × DrainOp)}
    (honly : ∀ n ∈ h, ∀ v, selects sel n.2 = some v → n.1 = t) :
    h.filterMap (fun n => selects sel n.2) = (h.filterMap (ofTask t)).filterMap (selects sel) := by
  rw [List.filterMap_filterMap]
  refine List.filterMap_congr fun n hn => ?_
  unfold ofTask
  split
  · rfl
  · rename_i ht
    exact Option.eq_none_iff_forall_ne_some.mpr fun v hv => ht (honly n hn v hv)

theorem selects_eq_some {β : Type} {sel : Op → Option β} {o : DrainOp} {v : β}
    (h : selects sel o = some v) : ∃ o', o = .base o' ∧ sel o' = some v := by
  obtain ⟨o', ho', hv⟩ := Option.bind_eq_some_iff.mp h
  cases o with
  | base o =>
    cases ho'
    exact ⟨_, rfl, hv⟩
  | _ => cases ho'

/-- **Every line of a stream was offered to the sink once**, in the order of the stream. -/
theorem offeredLines_eq {kind : LogStream} {text : Str} (htext : fromUtf8 (bytes kind) = some text)
    (hrun : (drained init first bytes waits).run ms = some c)
    (hend : c.world.teeEnded kind = true) :
    offeredLines kind (history (drained init first bytes waits) ms) = lines text := by
  have happended : ∀ {o v}, appended kind o = some v → o = .append kind v := by
    intro o v h
    cases o with
    | append k line =>
      simp only [appended] at h
      split at h
      · rename_i hk
        rw [hk, Option.some.inj h]
      · cases h
    | _ => cases h
  have hline : ∀ line, (handling kind line).filterMap (appended kind) = [line] := by
    intro line
    unfold handling
    cases parseSallocJobid line <;> cases parseSallocNode line <;> simp [appended]
  rw [offeredLines, filterMap_ofTask (t := kind.task),
    reader_history (fun o v h => ?_) htext hrun hend]
  · simp only [hline, List.flatMap_singleton']
  · rw [happended h]
    rfl
  · intro n hn v hv
    obtain ⟨o, ho, hv⟩ := selects_eq_some hv
    have hasks := history_asks hrun n hn
    rw [ho, happended hv] at hasks
    exact hasks

/-- The history of a run is that of its first part and then that of the rest. -/
theorem history_append {c₀ c₁ : Config drainMachine (Option WaitResult)}
    {before after : List (Move drainMachine)} (hrun : c₀.run before = some c₁) :
    history c₀ (before ++ after) = history c₀ before ++ history c₁ after :=
  (congrArg List.reverse (notes_append hrun)).trans List.reverse_append

/-- A banner is found on one of the streams. -/
theorem Banner.mem_found_iff {α : Type} (b : Banner α) {h : List (Nat × DrainOp)}
    (hasks : ∀ n ∈ h, Asks n.1 n.2) {v : α} : v ∈ b.found h ↔ ∃ kind, v ∈ b.foundOn kind h := by
  constructor
  · intro hv
    obtain ⟨n, hn, hsel⟩ := List.mem_filterMap.mp hv
    obtain ⟨o, ho, hreports⟩ := selects_eq_some hsel
    obtain ⟨kind, hkind⟩ := b.reports_asks hreports (ho ▸ hasks n hn)
    exact ⟨kind, List.mem_filterMap.mpr
      ⟨n.2, List.mem_filterMap.mpr ⟨n, hn, if_pos hkind⟩, hsel⟩⟩
  · rintro ⟨kind, hv⟩
    obtain ⟨o, ho, hsel⟩ := List.mem_filterMap.mp hv
    obtain ⟨n, hn, hn'⟩ := List.mem_filterMap.mp ho
    unfold ofTask at hn'
    split at hn'
    · cases hn'
      exact List.mem_filterMap.mpr ⟨n, hn, hsel⟩
    · cases hn'

/-- **What the drain leaves of a banner**, once both readers have come to their end. -/
theorem Banner.settled {α : Type} (b : Banner α) {text : LogStream → Str}
    (htext : ∀ kind, fromUtf8 (bytes kind) = some (text kind)) (hinit : b.field init = none)
    (hrun : (drained init first bytes waits).run ms = some c)
    (hend : ∀ kind, c.world.teeEnded kind = true) :
    b.Settled text (drained init first bytes waits) c ms := by
  have hfirst := b.field_eq_head? hinit hrun
  have hfoundOn : ∀ kind, b.foundOn kind (history (drained init first bytes waits) ms) =
      (lines (text kind)).filterMap b.parse := by
    intro kind
    rw [Banner.foundOn, reader_history b.reports_handles (htext kind) hrun (hend kind)]
    simp only [b.reports_handling, List.filterMap_eq_flatMap_toList]
  refine ⟨hfoundOn, hfirst, ?_, fun before after c₁ v hms hbefore hv => ?_⟩
  · rw [hfirst, List.isSome_head?]
    have hmem := @Banner.mem_found_iff α b _ (history_asks hrun)
    constructor
    · intro hne
      obtain ⟨v, hv⟩ := List.exists_mem_of_ne_nil _ hne
      obtain ⟨kind, hv⟩ := hmem.mp hv
      obtain ⟨line, hline, hparse⟩ := List.mem_filterMap.mp (hfoundOn kind ▸ hv)
      exact ⟨kind, line, hline, Option.isSome_iff_exists.mpr ⟨v, hparse⟩⟩
    · rintro ⟨kind, line, hline, hparse⟩
      obtain ⟨v, hv⟩ := Option.isSome_iff_exists.mp hparse
      refine List.ne_nil_of_mem (a := v) (hmem.mpr ⟨kind, ?_⟩)
      rw [hfoundOn]
      exact List.mem_filterMap.mpr ⟨line, hline, hv⟩
  · rw [b.field_eq_head? hinit hbefore] at hv
    rw [hfirst, hms, history_append hbefore, b.found_append, List.head?_append, hv]
    rfl

end Runs

end Tssrun

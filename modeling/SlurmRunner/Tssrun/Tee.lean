/-
# What the tee task makes of a stream

A child writes bytes.  `Lines::next_line` cuts them at the newlines and reports a line that is no
UTF-8 as an error; at the first of these `tee_lines` stops.  So it handles the lines before it, and
that is every valid line of the stream exactly if none comes after an invalid one.
-/
import SlurmRunner.Interact.Trace
import SlurmRunner.Text.Utf8
import SlurmRunner.Tssrun.Handle

namespace Tssrun

open Text Interact

/-! ## 1. The reads

The bytes of a stream are cut at the newlines.  The reader stops at the end of the stream or at the
first line that is no UTF-8. -/

/-- The text of a line. -/
def lineText (line : List UInt8) : Except Str Str :=
  match fromUtf8 line with
  | some text => .ok text
  | none => .error "stream did not contain valid UTF-8"

/-- The outcomes of `next_line`, where `cur` is the part of the current line already read. -/
def readsFrom (cur : List UInt8) : List UInt8 → List (Except Str Str)
  | [] => if cur = [] then [] else [lineText cur]
  | b :: bs =>
    if b = 0x0A then (lineText cur).map chomp :: readsFrom [] bs else readsFrom (cur ++ [b]) bs

/-- `BufReader::new(stream).lines()`: what `next_line` returns one after the other, before the end
of the stream. -/
def nextLines (bytes : List UInt8) : List (Except Str Str) := readsFrom [] bytes

/-- `tee_lines` over the outcomes of its reads. -/
def teeReads (kind : LogStream) : List (Except Str Str) → Prog sig Unit
  | [] => nextLine
  | .ok line :: rest => do
    nextLine
    teeLine kind line
    teeReads kind rest
  -- the error is logged, and the loop is left
  | .error _ :: _ => nextLine

/-- `tee_lines` on a stream of bytes. -/
def teeStream (kind : LogStream) (bytes : List UInt8) : Prog sig Unit :=
  teeReads kind (nextLines bytes)

/-- The lines before the first invalid one. -/
def linesRead : List (Except Str Str) → List Str
  | .ok line :: rest => line :: linesRead rest
  | _ => []

/-- The loop over the reads is the loop over the lines that were read. -/
theorem teeReads_eq (kind : LogStream) (reads : List (Except Str Str)) :
    teeReads kind reads = teeLines kind (linesRead reads) := by
  induction reads with
  | nil => rfl
  | cons r rest ih =>
    rcases r with e | line
    · rfl
    · rw [teeReads, linesRead, teeLines]
      exact bind_congr fun _ => bind_congr fun _ => ih

/-- A stream that is UTF-8 is read as the lines of its text. -/
theorem readsFrom_of_fromUtf8 {cur bs : List UInt8} {text : Str} (hcur : 0x0A ∉ cur)
    (h : fromUtf8 (cur ++ bs) = some text) : readsFrom cur bs = (lines text).map .ok := by
  induction bs generalizing cur text with
  | nil =>
    rw [List.append_nil] at h
    rw [readsFrom]
    split
    · rename_i hnil
      rw [hnil] at h
      cases h
      rfl
    · rename_i hne
      rw [lines_of_not_mem (not_mem_of_fromUtf8 hcur h) (ne_nil_of_fromUtf8 hne h), lineText, h]
      rfl
  | cons b bs ih =>
    rw [readsFrom]
    split
    · rename_i hb
      rw [hb, fromUtf8_append_newline] at h
      obtain ⟨s, hs, h⟩ := Option.bind_eq_some_iff.mp h
      obtain ⟨rest, hrest, rfl⟩ := Option.map_eq_some_iff.mp h
      rw [lines_line (not_mem_of_fromUtf8 hcur hs), lineText, hs, List.map_cons,
        ih List.not_mem_nil hrest]
      rfl
    · rename_i hb
      refine ih ?_ (by rwa [List.append_assoc, List.singleton_append])
      simpa [List.mem_append] using ⟨hcur, Ne.symm hb⟩

/-- **A stream that is a text is read as the lines of the text.** -/
theorem nextLines_of_fromUtf8 {bytes : List UInt8} {text : Str} (h : fromUtf8 bytes = some text) :
    nextLines bytes = (lines text).map .ok :=
  readsFrom_of_fromUtf8 List.not_mem_nil h

theorem linesRead_map_ok (stream : List Str) : linesRead (stream.map .ok) = stream := by
  induction stream with
  | nil => rfl
  | cons line rest ih => rw [List.map_cons, linesRead, ih]

/-! ## 2. What is done with a line

`handling` lists what must be done with a line: it goes to the sink, and a job id or a node that it
announces goes to the snapshot. -/

deriving instance DecidableEq for Op

/-- The operation hands a line to the log sink, or what was parsed of it to the snapshot. -/
def Op.handles : Op → Bool
  | .append _ _ | .setJobid _ | .setNode _ => true
  | _ => false

/-- A line goes to the sink, and its banner to the snapshot. -/
def handling (kind : LogStream) (line : Str) : List Op :=
  .append kind line :: ((parseSallocJobid line).toList.map .setJobid ++
    (parseSallocNode line).toList.map .setNode)

theorem perform_path {o : Op} {x : o.Ans} {os : List Op} (h : (perform o).Path os (.ret x)) :
    os = [o] :=
  Prog.path_op h

theorem return_path {α : Type} {a b : α} {os : List Op}
    (h : (Prog.ret a : Prog sig α).Path os (.ret b)) : os = [] :=
  (Prog.path_ret h).1

theorem seq_path {α β : Type} {p : Prog sig α} {f : α → Prog sig β} {b : β} {os : List Op}
    (h : (p >>= f).Path os (.ret b)) :
    ∃ a, ∃ os₁ os₂ : List Op, p.Path os₁ (.ret a) ∧ (f a).Path os₂ (.ret b) ∧ os = os₁ ++ os₂ :=
  Prog.path_bind h

/-- The jobid of the line is set, if it has one. -/
theorem updateJobid_path {line : Str} {os : List Op} {b : Bool}
    (h : (updateJobid line).Path os (.ret b)) :
    os = (parseSallocJobid line).toList.map .setJobid := by
  unfold updateJobid at h
  cases hj : parseSallocJobid line with
  | none =>
    rw [hj] at h
    exact return_path h
  | some jid =>
    rw [hj] at h
    exact perform_path h

/-- The node of the line is set, if it has one. -/
theorem updateNode_path {line : Str} {os : List Op} {b : Bool}
    (h : (updateNode line).Path os (.ret b)) :
    os = (parseSallocNode line).toList.map .setNode := by
  unfold updateNode at h
  cases hn : parseSallocNode line with
  | none =>
    rw [hn] at h
    exact return_path h
  | some node =>
    rw [hn] at h
    exact perform_path h

theorem persistWarn_path {snap : TssrunJobSnapshot} {os : List Op}
    (h : (persistWarn snap).Path os (.ret ())) : os = [.save snap] := by
  obtain ⟨_, os₁, os₂, h₁, h₂, rfl⟩ := seq_path h
  rw [return_path h₂, List.append_nil]
  exact perform_path h₁

theorem filter_handling (kind : LogStream) (line : Str) :
    (handling kind line).filter Op.handles = handling kind line := by
  unfold handling
  cases parseSallocJobid line <;> cases parseSallocNode line <;> rfl

/-- What a reader does with a line is what the line says. -/
theorem teeLine_path {kind : LogStream} {line : Str} {os : List Op}
    (h : (teeLine kind line).Path os (.ret ())) : os.filter Op.handles = handling kind line := by
  obtain ⟨_, os₁, _, h₁, hjobid, rfl⟩ := seq_path h
  obtain ⟨jobidUpdated, os₂, _, h₂, hnode, rfl⟩ := seq_path hjobid
  obtain ⟨nodeUpdated, os₃, os₄, h₃, hsave, rfl⟩ := seq_path hnode
  have hsaved : os₄.filter Op.handles = [] := by
    split at hsave
    · obtain ⟨snap, os₅, os₆, h₅, h₆, rfl⟩ := seq_path hsave
      rw [perform_path h₅, persistWarn_path h₆]
      rfl
    · rw [return_path hsave]
      rfl
  rw [perform_path h₁, updateJobid_path h₂, updateNode_path h₃, ← List.append_assoc,
    ← List.append_assoc, List.filter_append, hsaved, List.append_nil, List.append_assoc]
  exact filter_handling kind line

/-- And so with all the lines, in their order. -/
theorem teeLines_path {kind : LogStream} {lines : List Str} {os : List Op}
    (h : (teeLines kind lines).Path os (.ret ())) :
    os.filter Op.handles = lines.flatMap (handling kind) := by
  induction lines generalizing os with
  | nil =>
    rw [perform_path h]
    rfl
  | cons line rest ih =>
    obtain ⟨_, os₁, _, h₁, hline, rfl⟩ := seq_path h
    obtain ⟨_, os₂, os₃, h₂, h₃, rfl⟩ := seq_path hline
    rw [perform_path h₁, List.filter_append, List.filter_append, teeLine_path h₂, ih h₃,
      List.flatMap_cons]
    rfl

/-! ## 3. Every stream and every run

Whether a stream is kept depends on its bytes alone, and not on what the other tasks do
meanwhile. -/

/-- What task `t` has asked for in a run, in order. -/
def opsOf (c : Config machine Unit) (ms : List (Move machine)) (t : Nat) : List Op :=
  (c.notes (askedBy t) ms).reverse

/-- The valid lines of a stream, wherever the invalid ones stand. -/
def validLines (reads : List (Except Str Str)) : List Str :=
  reads.filterMap fun
    | .ok line => some line
    | .error _ => none

/-- No valid line comes after an invalid one. -/
def InvalidLast (reads : List (Except Str Str)) : Prop :=
  ∀ before e after line, reads = before ++ .error e :: after → .ok line ∉ after

/-- All the valid lines are read exactly if none comes after an invalid one. -/
theorem linesRead_eq_iff {reads : List (Except Str Str)} :
    linesRead reads = validLines reads ↔ InvalidLast reads := by
  induction reads with
  | nil => exact ⟨fun _ before _ _ _ h => (by cases before <;> cases h), fun _ => rfl⟩
  | cons r rest ih =>
    rcases r with e | line
    · constructor
      · intro h before e' after line hsplit hmem
        have hnone : validLines rest = [] := h.symm
        have hin : .ok line ∈ rest := by
          rcases before with _ | ⟨b, before⟩
          · cases hsplit
            exact hmem
          · cases hsplit
            exact List.mem_append_right _ (List.mem_cons_of_mem _ hmem)
        have : line ∈ validLines rest := List.mem_filterMap.mpr ⟨_, hin, rfl⟩
        rw [hnone] at this
        cases this
      · intro h
        refine (List.eq_nil_iff_forall_not_mem.mpr fun line hline => ?_).symm
        obtain ⟨r, hr, hok⟩ := List.mem_filterMap.mp hline
        rcases r with e' | line'
        · cases hok
        · have hin : .ok line' ∈ rest := by simpa using hr
          exact h [] e rest line' rfl hin
    · have hcons : linesRead (.ok line :: rest) = validLines (.ok line :: rest) ↔
          linesRead rest = validLines rest := by
        simp [linesRead, validLines]
      rw [hcons, ih]
      constructor
      · intro h before e after line' hsplit
        rcases before with _ | ⟨b, before⟩
        · cases hsplit
        · cases hsplit
          exact h before e after line' rfl
      · intro h before e after line' hsplit
        exact h (.ok line :: before) e after line' (by rw [hsplit]; rfl)

theorem linesRead_isPrefix (reads : List (Except Str Str)) :
    linesRead reads <+: validLines reads := by
  induction reads with
  | nil => exact List.prefix_rfl
  | cons r rest ih =>
    rcases r with e | line
    · exact List.nil_prefix
    · exact List.cons_prefix_cons.mpr ⟨rfl, ih⟩

/-- The operations handle every valid line of the stream, in order. -/
def Keeps (kind : LogStream) (bytes : List UInt8) (os : List Op) : Prop :=
  os.filter Op.handles = (validLines (nextLines bytes)).flatMap (handling kind)

instance (kind : LogStream) (bytes : List UInt8) (os : List Op) : Decidable (Keeps kind bytes os) :=
  inferInstanceAs (Decidable (_ = _))

/-- **The tee keeps the lines of a stream exactly if no valid line comes after an invalid one.**  In
every run in which the task has ended, whatever the other tasks do and however the saves end. -/
theorem tee_keeps_iff {c c' : Config machine Unit} {ms : List (Move machine)} {t : Nat}
    {kind : LogStream} {bytes : List UInt8} (htask : c.tasks t = some (teeStream kind bytes))
    (hrun : c.run ms = some c') (hend : c'.result t = some ()) :
    Keeps kind bytes (opsOf c ms t) ↔ InvalidLast (nextLines bytes) := by
  have hpath : (teeStream kind bytes).Path (opsOf c ms t) (.ret ()) :=
    Config.run_path htask hrun (Config.result_eq_some.mp hend)
  rw [teeStream, teeReads_eq] at hpath
  have hkeeps : Keeps kind bytes (opsOf c ms t) ↔
      (linesRead (nextLines bytes)).flatMap (handling kind) =
        (validLines (nextLines bytes)).flatMap (handling kind) := by
    rw [← teeLines_path hpath]
    exact Iff.rfl
  rw [hkeeps, ← linesRead_eq_iff]
  constructor
  · intro h
    obtain ⟨rest, hrest⟩ := linesRead_isPrefix (nextLines bytes)
    rw [← hrest, List.flatMap_append, List.self_eq_append_right] at h
    have hnil : rest = [] := by
      rw [List.eq_nil_iff_forall_not_mem]
      intro line hline
      have := List.flatMap_eq_nil_iff.mp h line hline
      cases this
    rw [← hrest, hnil, List.append_nil]
  · intro h
    rw [h]

/-- A tee task on its own, on the stderr of a fresh job. -/
def teeing (bytes : List UInt8) : Config machine Unit :=
  ⟨World.spawned ⟨1, 100, [], [], none, 0, .none, none, none, none⟩, fun t =>
    if t = 0 then some (teeStream .stderr bytes) else none⟩

/-- The bytes of a text in ASCII. -/
def asciiBytes (s : String) : List UInt8 := s.toList.map fun c => UInt8.ofNat c.toNat

/-- The banner, and then a byte that begins no character. -/
def bannerFirst : List UInt8 := asciiBytes "salloc: Granted job allocation 42\r\n" ++ [0xFF]

/-- The same byte on a line of its own, and then the banner. -/
def bannerLast : List UInt8 := [0xFF, 0x0A] ++ asciiBytes "salloc: Granted job allocation 42\n"

def goNext : Move machine := .pass 0 .go

/-- The banner is handled and saved, then the next read fails. -/
def bannerHandled : List (Move machine) :=
  [.pass 0 .go, .pass 0 (.done (.ok ())), .pass 0 .go, .pass 0 .go, .pass 0 (.done (.ok ())),
   .pass 0 .go]

theorem tee_keeps_iff_bannerFirst : ∃ c, (teeing bannerFirst).run bannerHandled = some c ∧
    c.world.watch.jobid = some 42 ∧
    Keeps .stderr bannerFirst (opsOf (teeing bannerFirst) bannerHandled 0) := by
  obtain ⟨c, hrun, hend, hjob⟩ : ∃ c, (teeing bannerFirst).run bannerHandled = some c ∧
      (c.result 0 = some () ∧ c.world.watch.jobid = some 42) :=
    Config.exists_run (by decide +kernel)
  have hreads : nextLines bannerFirst =
      [.ok "salloc: Granted job allocation 42", .error "stream did not contain valid UTF-8"] := by
    decide +kernel
  have htask : (teeing bannerFirst).tasks 0 = some (teeStream .stderr bannerFirst) := rfl
  refine ⟨c, hrun, hjob, (tee_keeps_iff htask hrun hend).mpr ?_⟩
  intro before e after line hsplit
  rw [hreads] at hsplit
  -- the invalid line is the last one
  rcases before with _ | ⟨_, _ | ⟨_, before⟩⟩
  · cases hsplit
  · cases hsplit
    exact List.not_mem_nil
  · simp at hsplit

/-- **The banner is lost.**  It comes after an invalid line, all goes well, the task has ended, and
the job id was not parsed. -/
theorem banner_lost : ∃ c, (teeing bannerLast).run [goNext] = some c ∧
    c.result 0 = some () ∧
    .ok "salloc: Granted job allocation 42".toList ∈ nextLines bannerLast ∧
    parseSallocJobid "salloc: Granted job allocation 42" = some 42 ∧
    c.world.watch.jobid = none ∧
    ¬ Keeps .stderr bannerLast (opsOf (teeing bannerLast) [goNext] 0) :=
  Config.exists_run (by decide +kernel)

end Tssrun

/-
# Every line is whole

What one `append` and one `flush` do to the files of a sink, and from these what a task with any
calls does: its appends are its lines, in order, and when it has been told that a flush went well,
the lines before the flush are on the disk.
-/
import SlurmRunner.Tssrun.LogSink

namespace Tssrun

open Text Interact

/-! ## 1. An append

A line is written piece by piece while the task has the mutex, which it gives back whether or not
the writes have succeeded.  What other tasks do meanwhile leaves the appends of this task as they
are. -/

section Programs

variable {content : LogStream → List UInt8} {plan : Nat → LogStream → List Str} {t : Nat}
  {w w' : SinkWorld} {s : LogStream} {α β : Type}

/-- An append stays what it is while its task is suspended. -/
theorem LogFile.Writes.kept {f f' : LogFile} {line : Str} {got : List UInt8} {m : List LineWrite}
    (h : f.Writes t line got m) (hk : f.KeptFor t f') : f'.Writes t line got m := by
  obtain ⟨hheld, rest, hw, hm⟩ := h
  obtain ⟨hheld', hw'⟩ := hk.held hheld
  exact ⟨hheld', rest, hw'.trans hw, hm⟩

theorem LogFile.Flushes.kept {f f' : LogFile} (h : f.Flushes t) (hk : f.KeptFor t f') :
    f'.Flushes t := by
  obtain ⟨hheld', hw'⟩ := hk.held h.1
  exact ⟨hheld', fun x hx => h.2 x (hw' ▸ hx)⟩

/-- Only one append is at work. -/
theorem LogFile.Writes.unique {f : LogFile} {line line' : Str} {got got' : List UInt8}
    {m m' : List LineWrite} (h : f.Writes t line got m) (h' : f.Writes t line' got' m') :
    line' = line ∧ got' = got := by
  obtain ⟨-, rest, hw, -⟩ := h
  obtain ⟨-, rest', hw', -⟩ := h'
  cases hw.symm.trans hw'
  exact ⟨rfl, rfl⟩

theorem LogFile.Writes.ofTask_released {f : LogFile} {line : Str} {got : List UInt8}
    {m : List LineWrite} (h : f.Writes t line got m) :
    (f.released .closed).ofTask t = ⟨t, line, got, .closed⟩ :: m := by
  obtain ⟨-, rest, hw, rfl⟩ := h
  simp [LogFile.ofTask, LogFile.released, hw, modifyLatest]

theorem LogFile.Flushes.ofTask_released {f : LogFile} (h : f.Flushes t) :
    (f.released .closed).ofTask t = f.ofTask t := by
  rw [LogFile.ofTask, LogFile.released, modifyLatest_of_none h.2, LogFile.ofTask]

/-- Nothing is taken back by a program. -/
theorem wp_sinkGrown {p : Prog sinkSig α} {Q : α → SinkWorld → Prop}
    (hp : (sinkLogic content plan).wp t p Q w) : (sinkLogic content plan).wp t p
      (fun a w' => Q a w' ∧ ∀ s, (w.file s).Grown (w'.file s)) w :=
  Context.wp_grows (F := fun w w' => ∀ s, (w.file s).Grown (w'.file s))
    (fun h h' s => (h s).trans (h' s)) (fun h s => (h s).toGrown)
    (fun hi hpre he => (sink_exec hi hpre he).grown) hp fun _ => .refl _

/-- The appends of a task to the other file are the same. -/
def SameElsewhere (s : LogStream) (t : Nat) (w w' : SinkWorld) : Prop :=
  ∀ s', s' ≠ s → (w'.file s').ofTask t = (w.file s').ofTask t

/-- A program on one file leaves the appends of its task to the other one. -/
theorem wp_sinkOther {p : Prog sinkSig α} {Q : α → SinkWorld → Prop}
    (hp : (sinkLogic content plan).wp t p Q w) (huses : p.Uses fun o => SinkOp.stream o = s) :
    (sinkLogic content plan).wp t p (fun a w' => Q a w' ∧ SameElsewhere s t w w') w := by
  refine Context.wp_frame (F := SameElsewhere s t)
    (fun h h' s' hs => Eq.trans (h' s' hs) (h s' hs)) (fun h s' _ => (h s').own)
    (fun ho _ he s' hs => ?_) huses hp fun _ _ => rfl
  rw [file_of_exec he (ho ▸ hs)]

/-- The rule of an operation. -/
theorem wp_sinkOp {o : SinkOp} {Q : o.Ans → SinkWorld → Prop}
    (hpre : ∀ w₁ : SinkWorld, (∀ s, (w.file s).KeptFor t (w₁.file s)) → SinkPermit plan t o w₁)
    (hQ : ∀ (w₁ w' : SinkWorld) i a, (∀ s, (w.file s).KeptFor t (w₁.file s)) →
      w₁.Sound content plan → sinkExec t o i w₁ = some (a, w') → Q a w') :
    (sinkLogic content plan).wp t (sinkOp o) Q w :=
  Context.wp_await (fun w₁ hr _ => hpre w₁ hr) fun w₁ i a w' hr hi he _ => hQ w₁ w' i a hr hi he

/-- The mutex is taken for a line. -/
theorem wp_lockLine {line : Str} (hline : (w.file s).linesOf t ++ [line] <+: plan t s) :
    (sinkLogic content plan).wp t (sinkOp (.lock s (some line)))
      (fun _ w' => (w'.file s).Writes t line [] ((w.file s).ofTask t)) w := by
  refine wp_sinkOp (fun w₁ hr l hl => ?_) fun w₁ w' i a hr _ he => ?_
  · cases hl
    rw [LogFile.linesOf_of_ofTask (hr s).own]
    exact hline
  · obtain ⟨-, rfl⟩ := lock_cases he
    rw [update_file]
    exact ⟨rfl, (w₁.file s).writes, rfl, (hr s).own⟩

/-- One write takes a part of the bytes, or it is told that an earlier one has failed. -/
theorem wp_write {bytes got : List UInt8} {line : Str} {m : List LineWrite}
    (hown : (w.file s).Writes t line got m) (hbytes : got ++ bytes <+: lineBytes line) :
    (sinkLogic content plan).wp t (sinkOp (.write s bytes)) (fun r w' =>
      (∃ n, r = .ok n ∧ 0 < n ∧ (w'.file s).Writes t line (got ++ bytes.take n) m) ∨
      (∃ e, r = .error e) ∧ (w'.file s).failed = true ∧ (w'.file s).Writes t line got m) w := by
  refine wp_sinkOp (fun w₁ hr => ⟨line, got, m, hown.kept (hr s), hbytes⟩) ?_
  intro w₁ w' i r hr hi he
  have hown₁ := hown.kept (hr s)
  rcases write_cases he with ⟨n, rfl, hn, hlen, hidle, rfl⟩ | ⟨e, rfl, hended, rfl⟩
  · have hchunk : got ++ bytes.take n <+: lineBytes line :=
      ((List.prefix_append_right_inj got).mpr (List.take_prefix n bytes)).trans hbytes
    rw [update_file]
    exact .inl ⟨n, rfl, hn, ((hi s).took hown₁ hidle hchunk).2.2.2⟩
  · rw [update_file]
    exact .inr ⟨⟨e, rfl⟩, (hi s).told e hended, hown₁⟩

/-- An append has been told how it went: all of `want` was taken, or an earlier write to the disk
has failed. -/
def Taken (s : LogStream) (t : Nat) (line : Str) (want : List UInt8) (m : List LineWrite)
    (r : Except Str Unit) (w : SinkWorld) : Prop :=
  ∃ got, (w.file s).Writes t line got m ∧
    ((r = .ok () ∧ got = want) ∨ ((∃ e, r = .error e) ∧ (w.file s).failed = true))

/-- The loop that writes the rest of a line. -/
theorem wp_writeAll {n : Nat} {bytes got : List UInt8} {line : Str} {m : List LineWrite}
    (hlen : bytes.length ≤ n) (hown : (w.file s).Writes t line got m)
    (hbytes : got ++ bytes <+: lineBytes line) :
    (sinkLogic content plan).wp t (writeAll s n bytes) (Taken s t line (got ++ bytes) m) w := by
  induction n generalizing bytes got w with
  | zero =>
    have hnil : bytes = [] := List.eq_nil_of_length_eq_zero (Nat.le_zero.mp hlen)
    exact ⟨got, hown, .inl ⟨rfl, by rw [hnil, List.append_nil]⟩⟩
  | succ n ih =>
    unfold writeAll
    split
    · rename_i hnil
      exact ⟨got, hown, .inl ⟨rfl, by rw [hnil, List.append_nil]⟩⟩
    · refine Context.wp_seq (wp_write hown hbytes) fun r w₁ h => ?_
      rcases h with ⟨k, rfl, hk, hown₁⟩ | ⟨⟨e, rfl⟩, hfailed, hown₁⟩
      · change (sinkLogic content plan).wp t (if k = 0 then .ret (.error _)
          else writeAll s n (bytes.drop k)) _ w₁
        rw [if_neg (Nat.ne_of_gt hk)]
        have hall : got ++ bytes.take k ++ bytes.drop k = got ++ bytes := by
          rw [List.append_assoc, List.take_append_drop]
        have hrest : (bytes.drop k).length ≤ n := by
          rw [List.length_drop]
          omega
        exact hall ▸ ih hrest hown₁ (hall ▸ hbytes)
      · exact ⟨got, hown₁, .inr ⟨⟨e, rfl⟩, hfailed⟩⟩

/-- A line is written whole, or the write fails. -/
theorem wp_writeLine {line : Str} {m : List LineWrite} (hown : (w.file s).Writes t line [] m) :
    (sinkLogic content plan).wp t (writeLine s line) (Taken s t line (lineBytes line) m) w := by
  refine Context.wp_seq (wp_writeAll (Nat.le_refl _) hown (List.prefix_append _ _)) ?_
  rintro r w₁ ⟨got, hown₁, ⟨rfl, rfl⟩ | ⟨⟨e, rfl⟩, hfailed⟩⟩
  · exact wp_writeAll (Nat.le_refl _) hown₁ List.prefix_rfl
  · exact ⟨got, hown₁, .inr ⟨⟨e, rfl⟩, hfailed⟩⟩

/-- **An append** is the latest of its task, it is whole or a write has failed, and its task is told
of no failure that there was not. -/
theorem wp_append {line : Str} (hline : (w.file s).linesOf t ++ [line] <+: plan t s) :
    (sinkLogic content plan).wp t (FileLogSink.append s line) (fun r w' =>
      (∃ got, (w'.file s).ofTask t = ⟨t, line, got, .closed⟩ :: (w.file s).ofTask t) ∧
      ((w'.file s).failed = false → r = .ok ())) w := by
  refine Context.wp_seq (wp_lockLine hline) fun _ w₁ hown => ?_
  refine Context.wp_seq (wp_writeLine hown) ?_
  rintro r w₂ ⟨got, hown₂, hgot⟩
  have hunlock : (sinkLogic content plan).wp t (sinkOp (.unlock s)) (fun _ w' =>
      (w'.file s).ofTask t = ⟨t, line, got, .closed⟩ :: (w.file s).ofTask t ∧
      ((w'.file s).failed = false → r = .ok ())) w₂ := by
    refine wp_sinkOp (fun w₃ hr => ?_) fun w₃ w' i a hr _ he => ?_
    · have hown₃ := hown₂.kept (hr s)
      refine ⟨hown₃.1, fun line' got' m' hown' hf => ?_⟩
      obtain ⟨rfl, rfl⟩ := hown₃.unique hown'
      rcases hgot with ⟨-, rfl⟩ | ⟨-, hfailed⟩
      · rfl
      · rw [(hr s).failed hfailed] at hf
        cases hf
    · cases he
      rw [update_file]
      refine ⟨(hown₂.kept (hr s)).ofTask_released, fun hf => ?_⟩
      rcases hgot with ⟨hok, -⟩ | ⟨-, hfailed⟩
      · exact hok
      · have hf' : (w₃.file s).failed = false := hf
        rw [(hr s).failed hfailed] at hf'
        cases hf'
  exact Context.wp_seq hunlock fun _ w₃ h => ⟨⟨got, h.1⟩, h.2⟩

/-- A write concerns one file only. -/
theorem writeAll_uses (n : Nat) (bytes : List UInt8) :
    (writeAll s n bytes).Uses fun o => SinkOp.stream o = s := by
  induction n generalizing bytes with
  | zero => exact Prog.uses_ret _
  | succ n ih =>
    unfold writeAll
    split
    · exact Prog.uses_ret _
    · refine Prog.uses_bind (Prog.uses_op (E := sinkSig) rfl) fun r => ?_
      cases r with
      | error e => exact Prog.uses_ret _
      | ok k =>
        dsimp only
        split
        · exact Prog.uses_ret _
        · exact ih _

theorem append_uses (line : Str) :
    (FileLogSink.append s line).Uses fun o => SinkOp.stream o = s := by
  refine Prog.uses_bind (Prog.uses_op (E := sinkSig) rfl) fun _ => Prog.uses_bind ?_ fun r =>
    Prog.uses_bind (Prog.uses_op (E := sinkSig) rfl) fun _ => Prog.uses_ret _
  refine Prog.uses_bind (writeAll_uses _ _) fun r => ?_
  cases r with
  | error e => exact Prog.uses_ret _
  | ok _ => exact writeAll_uses _ _

/-! ## 2. A flush

A flush that succeeds tells its task that all it has appended is on the disk. -/

/-- These lines of task `t`, which were all its lines to the file at that time, are on the disk. -/
def LogFile.Saved (content : List UInt8) (f : LogFile) (t : Nat) (lines : List Str) : Prop :=
  ∃ e, e <+: f.writes.reverse ∧ (∀ x ∈ e, x.stage ≠ .writing) ∧
    (e.filter fun x => x.task = t).map LineWrite.line = lines ∧
    content ++ e.flatMap LineWrite.taken <+: f.disk

theorem LogFile.Saved.grown {c : List UInt8} {f f' : LogFile} {lines : List Str}
    (h : f.Saved c t lines) (hg : f.Grown f') : f'.Saved c t lines := by
  obtain ⟨e, he, hstage, hlines, hdisk⟩ := h
  exact ⟨e, hg.past e he hstage, hstage, hlines, hdisk.trans hg.disk⟩

/-- With nothing on its way, all that the file has taken is on the disk. -/
theorem LogFile.Sound.saved {c : List UInt8} {p : Nat → List Str} {dropped : List Nat} {f : LogFile}
    (hs : f.Sound c p dropped) (h : f.Flushes t) (hidle : f.inFlight = [])
    (hf : f.failed = false) : f.Saved c t (f.linesOf t) := by
  refine ⟨f.writes.reverse, List.prefix_rfl, fun x hx => h.2 x (List.mem_reverse.mp hx), ?_, ?_⟩
  · rw [LogFile.linesOf, LogFile.ofTask, List.filter_reverse, List.map_reverse]
  · have hbytes := hs.bytes hf
    rw [hidle, List.append_nil] at hbytes
    rw [hbytes]
    exact List.prefix_rfl

/-- **A flush of one file**: what was appended is on the disk, or it is told of a failure. -/
theorem wp_flushStream : (sinkLogic content plan).wp t (flushStream s) (fun r w' =>
    (w'.file s).ofTask t = (w.file s).ofTask t ∧ (r = .ok () → (w'.file s).failed = false →
      (w'.file s).Saved (content s) t ((w.file s).linesOf t))) w := by
  have hlock : (sinkLogic content plan).wp t (sinkOp (.lock s none)) (fun _ w' =>
      (w'.file s).Flushes t ∧ (w'.file s).ofTask t = (w.file s).ofTask t) w := by
    refine wp_sinkOp (fun _ _ => nofun) fun w₁ w' i a hr hs he => ?_
    obtain ⟨hfree, rfl⟩ := lock_cases he
    rw [update_file]
    exact ⟨⟨rfl, (hs s).not_writing hfree⟩, (hr s).own⟩
  refine Context.wp_seq hlock fun _ w₁ ⟨hflush₁, hown₁⟩ => ?_
  have hlines : (w₁.file s).linesOf t = (w.file s).linesOf t := LogFile.linesOf_of_ofTask hown₁
  have hflushFile : (sinkLogic content plan).wp t (sinkOp (.flushFile s)) (fun r w' =>
      (w'.file s).Flushes t ∧ (w'.file s).ofTask t = (w.file s).ofTask t ∧
      (r = .ok () → (w'.file s).failed = false →
        (w'.file s).Saved (content s) t ((w.file s).linesOf t))) w₁ := by
    refine wp_sinkOp (fun _ _ => trivial) fun w₂ w' i r hr hs he => ?_
    obtain ⟨hidle, hcases⟩ := flush_cases he
    have hflush₂ := hflush₁.kept (hr s)
    have hown₂ : (w₂.file s).ofTask t = (w.file s).ofTask t := (hr s).own.trans hown₁
    have hsaved : (w₂.file s).failed = false →
        (w₂.file s).Saved (content s) t ((w.file s).linesOf t) := fun hf =>
      LogFile.linesOf_of_ofTask hown₂ ▸ (hs s).saved hflush₂ hidle hf
    rcases hcases with ⟨-, rfl⟩ | ⟨-, rfl⟩
    · exact ⟨hflush₂, hown₂, fun _ => hsaved⟩
    · rw [update_file]
      exact ⟨hflush₂, hown₂, fun _ => hsaved⟩
  refine Context.wp_seq hflushFile fun r w₂ ⟨hflush₂, hown₂, hsaved₂⟩ => ?_
  have hunlock : (sinkLogic content plan).wp t (sinkOp (.unlock s))
      (fun _ w' => (w'.file s).ofTask t = (w.file s).ofTask t) w₂ := by
    refine wp_sinkOp (fun w₃ hr => ?_) fun w₃ w' i a hr _ he => ?_
    · have hflush₃ := hflush₂.kept (hr s)
      refine ⟨hflush₃.1, fun line got m hown _ => ?_⟩
      exact absurd rfl (hflush₃.2 _ hown.mem)
    · cases he
      rw [update_file, (hflush₂.kept (hr s)).ofTask_released, (hr s).own, hown₂]
  exact Context.wp_seq (wp_sinkGrown hunlock) fun _ w₃ ⟨hown₃, hg⟩ =>
    ⟨hown₃, fun hok hf => (hsaved₂ hok ((hg s).not_failed hf)).grown (hg s)⟩

theorem flushStream_uses : (flushStream s).Uses fun o => SinkOp.stream o = s :=
  Prog.uses_bind (Prog.uses_op (E := sinkSig) rfl) fun _ =>
    Prog.uses_bind (Prog.uses_op (E := sinkSig) rfl) fun _ =>
      Prog.uses_bind (Prog.uses_op (E := sinkSig) rfl) fun _ => Prog.uses_ret _

/-- **A flush** leaves the appends, and when it went well, they are on the disks. -/
theorem wp_flush : (sinkLogic content plan).wp t FileLogSink.flush (fun r w' =>
    ∀ s, (w'.file s).ofTask t = (w.file s).ofTask t ∧ (r = .ok () → (w'.file s).failed = false →
      (w'.file s).Saved (content s) t ((w.file s).linesOf t))) w := by
  refine Context.wp_seq (wp_sinkOther wp_flushStream flushStream_uses) ?_
  rintro r w₁ ⟨⟨hout, hsaved⟩, helse⟩
  have hown₁ : ∀ s, (w₁.file s).ofTask t = (w.file s).ofTask t := by
    intro s
    cases s with
    | stdout => exact hout
    | stderr => exact helse .stderr nofun
  cases r with
  | error e => exact fun s => ⟨hown₁ s, nofun⟩
  | ok _ =>
    refine Context.wp_mono (wp_sinkGrown (wp_sinkOther wp_flushStream flushStream_uses)) ?_
    rintro r w₂ ⟨⟨⟨herr, hsaved'⟩, helse'⟩, hg⟩ s
    cases s with
    | stdout =>
      exact ⟨(helse' .stdout nofun).trans hout, fun _ hf =>
        (hsaved rfl ((hg .stdout).not_failed hf)).grown (hg .stdout)⟩
    | stderr =>
      refine ⟨herr.trans (hown₁ .stderr), fun hok hf => ?_⟩
      rw [← LogFile.linesOf_of_ofTask (hown₁ .stderr)]
      exact hsaved' hok hf

/-! ## 3. Any calls

The answers to the calls of a task, in their order, on both files. -/

/-- The lines that calls append to a file. -/
def linesIn (s : LogStream) : List SinkCall → List Str
  | [] => []
  | .append s' line :: calls => (if s' = s then [line] else []) ++ linesIn s calls
  | .flush :: calls => linesIn s calls

variable (content t) in
/-- What the answers to calls say, where `done` has the lines of the task before these: an append
went well unless a write to the disk has failed, and after a flush that went well what was appended
before it is on the disk. -/
def Answered : (done : LogStream → List Str) → List SinkCall → List (Except Str Unit) →
    SinkWorld → Prop
  | _, [], rs, _ => rs = []
  | done, .append s line :: calls, r :: rs, w => ((w.file s).failed = false → r = .ok ()) ∧
      Answered (Function.update done s (done s ++ [line])) calls rs w
  | done, .flush :: calls, r :: rs, w =>
      (r = .ok () → ∀ s, (w.file s).failed = false → (w.file s).Saved (content s) t (done s)) ∧
      Answered done calls rs w
  | _, _ :: _, [], _ => False

/-- What was answered stays true. -/
theorem Answered.grown {done : LogStream → List Str} {calls : List SinkCall}
    {rs : List (Except Str Unit)} (h : Answered content t done calls rs w)
    (hg : ∀ s, (w.file s).Grown (w'.file s)) : Answered content t done calls rs w' := by
  induction calls generalizing done rs with
  | nil => exact h
  | cons call calls ih =>
    cases rs with
    | nil => cases call <;> exact h.elim
    | cons r rs =>
      cases call with
      | append s line => exact ⟨fun hf => h.1 ((hg s).not_failed hf), ih h.2⟩
      | flush =>
        exact ⟨fun hok s hf => (h.1 hok s ((hg s).not_failed hf)).grown (hg s), ih h.2⟩

/-- What a task with these calls has done when it has returned. -/
structure Done (content : LogStream → List UInt8) (t : Nat) (calls : List SinkCall)
    (w : SinkWorld) (rs : List (Except Str Unit)) (w' : SinkWorld) : Prop where
  lines : ∀ s, (w'.file s).linesOf t = (w.file s).linesOf t ++ linesIn s calls
  closed : ∀ s, ∀ x ∈ (w'.file s).ofTask t, x ∈ (w.file s).ofTask t ∨ x.stage = .closed
  answered : Answered content t (fun s => (w.file s).linesOf t) calls rs w'

/-- What an append leaves of its task. -/
structure Appended (t : Nat) (s : LogStream) (line : Str) (w w' : SinkWorld) : Prop where
  own : ∃ got, (w'.file s).ofTask t = ⟨t, line, got, .closed⟩ :: (w.file s).ofTask t
  other : SameElsewhere s t w w'

namespace Appended

theorem linesOf {line : Str} (h : Appended t s line w w') (s' : LogStream) :
    (w'.file s').linesOf t = (w.file s').linesOf t ++ if s = s' then [line] else [] := by
  obtain ⟨got, hown⟩ := h.own
  by_cases hs : s = s'
  · subst hs
    rw [LogFile.linesOf, hown, if_pos rfl, List.map_cons, List.reverse_cons]
    rfl
  · rw [if_neg hs, List.append_nil]
    exact LogFile.linesOf_of_ofTask (h.other s' (Ne.symm hs))

theorem linesOf_update {line : Str} (h : Appended t s line w w') :
    (fun s' => (w'.file s').linesOf t) = Function.update
      (fun s' => (w.file s').linesOf t) s ((w.file s).linesOf t ++ [line]) := by
  funext s'
  rw [h.linesOf]
  by_cases hs : s = s'
  · subst hs
    rw [if_pos rfl, Function.update_self]
  · rw [if_neg hs, List.append_nil, Function.update_of_ne (Ne.symm hs)]

theorem closed {line : Str} (h : Appended t s line w w') {s' : LogStream} {x : LineWrite}
    (hx : x ∈ (w'.file s').ofTask t) : x ∈ (w.file s').ofTask t ∨ x.stage = .closed := by
  obtain ⟨got, hown⟩ := h.own
  by_cases hs : s' = s
  · subst hs
    rw [hown] at hx
    rcases List.mem_cons.mp hx with rfl | hx
    · exact .inr rfl
    · exact .inl hx
  · exact .inl (h.other s' hs ▸ hx)

end Appended

/-- All the calls of one task. -/
theorem wp_sinkUser (calls : List SinkCall)
    (hplan : ∀ s, (w.file s).linesOf t ++ linesIn s calls <+: plan t s) :
    (sinkLogic content plan).wp t (sinkUser calls) (Done content t calls w) w := by
  induction calls generalizing w with
  | nil => exact ⟨fun s => (List.append_nil _).symm, fun s x hx => .inl hx, rfl⟩
  | cons call calls ih =>
    cases call with
    | append s line =>
      have hline : (w.file s).linesOf t ++ [line] <+: plan t s := by
        refine List.IsPrefix.trans ?_ (hplan s)
        rw [linesIn, if_pos rfl, ← List.append_assoc]
        exact List.prefix_append _ _
      refine Context.wp_seq (wp_sinkOther (wp_append hline) (append_uses line)) ?_
      rintro r w₁ ⟨⟨hown, hok⟩, helse⟩
      have happended : Appended t s line w w₁ := ⟨hown, helse⟩
      refine Context.wp_seq (wp_sinkGrown (ih fun s' => ?_)) ?_
      · rw [happended.linesOf, List.append_assoc]
        exact hplan s'
      rintro rs w₂ ⟨hdone, hg⟩
      refine ⟨fun s' => ?_, fun s' x hx => ?_, fun hf => hok ((hg s).not_failed hf), ?_⟩
      · rw [hdone.lines, happended.linesOf, List.append_assoc, linesIn]
      · rcases hdone.closed s' x hx with hx | hx
        · exact happended.closed hx
        · exact .inr hx
      · rw [← happended.linesOf_update]
        exact hdone.answered
    | flush =>
      refine Context.wp_seq wp_flush fun r w₁ hflush => ?_
      have hlines : ∀ s, (w₁.file s).linesOf t = (w.file s).linesOf t := fun s =>
        LogFile.linesOf_of_ofTask (hflush s).1
      refine Context.wp_seq (wp_sinkGrown (ih fun s' => ?_)) ?_
      · rw [hlines]
        exact hplan s'
      rintro rs w₂ ⟨hdone, hg⟩
      have hanswered := hdone.answered
      simp only [hlines] at hanswered
      refine ⟨fun s' => ?_, fun s' x hx => ?_, fun hok s' hf => ?_, hanswered⟩
      · rw [hdone.lines, hlines, linesIn]
      · rw [← (hflush s').1]
        exact hdone.closed s' x hx
      · exact ((hflush s').2 hok ((hg s').not_failed hf)).grown (hg s')

end Programs

/-! ## 4. Every run

Only one task at a time is in the middle of a line, so what a dropped task leaves is a part of one
line, and the other lines follow it whole. -/

section Runs

variable {content : LogStream → List UInt8} {calls : Nat → Option (List SinkCall)}
  {ms : List (Move sinkMachine)} {c : Config sinkMachine (List (Except Str Unit))}

/-- The lines that a task is to append. -/
def planOf (calls : Nat → Option (List SinkCall)) (t : Nat) (s : LogStream) : List Str :=
  linesIn s ((calls t).getD [])

/-- At the start nothing is written, and every line is whole. -/
theorem sound_created (plan : Nat → LogStream → List Str) :
    (SinkWorld.created content).Sound content plan := by
  intro s
  exact ⟨⟨fun _ => by simp [LogFile.inFlight, LogFile.taken, SinkWorld.created], nofun,
    fun _ => nofun, nofun, nofun⟩, nofun, fun _ => List.nil_prefix, nofun⟩

/-- What a task has done and was told, when it has returned. -/
structure LinesTold (content : LogStream → List UInt8)
    (calls : Nat → Option (List SinkCall)) (t : Nat)
    (rs : List (Except Str Unit)) (w : SinkWorld) : Prop where
  lines : ∀ s, (w.file s).linesOf t = planOf calls t s
  closed : ∀ s, ∀ x ∈ (w.file s).ofTask t, x.stage = .closed
  answered : Answered content t (fun _ => []) ((calls t).getD []) rs w

/-- **Every line is whole.**  In every run of any number of tasks that use one sink, whichever of
them are dropped and however the writes to the disk go: each file is made of lines, in the order in
which they were appended, and only the one that is being written and those of dropped tasks may be
parts; of each task a file has its lines, in their order; and the answers of a task that has
returned are true. -/
theorem lines_stay_whole (hrun : (sinkUsers content calls).run ms = some c) :
    (∀ s, (c.world.file s).WholeLines (content s) c.world.dropped) ∧
    (∀ t s, (c.world.file s).linesOf t <+: planOf calls t s) ∧
    ∀ t rs, c.result t = some rs → LinesTold content calls t rs c.world := by
  have hstable : ∀ t rs w w', LinesTold content calls t rs w →
      (sinkLogic content (planOf calls)).rely t w w' → LinesTold content calls t rs w' := by
    intro t rs w w' h hr
    refine ⟨fun s => ?_, fun s x hx => ?_, h.answered.grown fun s => (hr s).toGrown⟩
    · rw [LogFile.linesOf_of_ofTask (hr s).own]
      exact h.lines s
    · exact h.closed s x ((hr s).own ▸ hx)
  have hsafe : Config.Safe (sinkLogic content (planOf calls)) (LinesTold content calls)
      (sinkUsers content calls) := by
    refine ⟨sound_created _, fun t p hp => ?_, fun t p hp => ?_⟩
    · obtain ⟨cs, -, rfl⟩ := Option.map_eq_some_iff.mp hp
      rcases cs with _ | ⟨_ | _, cs⟩
      · trivial
      all_goals rfl
    · obtain ⟨cs, hcs, rfl⟩ := Option.map_eq_some_iff.mp hp
      have hplan : planOf calls t = fun s => linesIn s cs := by
        funext s
        rw [planOf, hcs, Option.getD_some]
      refine Context.wp_mono (wp_sinkUser cs fun s => ?_) fun rs w' h => ?_
      · rw [hplan]
        exact List.prefix_rfl
      · refine ⟨fun s => ?_, fun s x hx => ?_, ?_⟩
        · rw [hplan]
          exact h.lines s
        · exact (h.closed s x hx).resolve_left nofun
        · rw [hcs]
          exact h.answered
  have hend := Config.run_sound hstable hsafe hrun
  exact ⟨fun s => (hend.inv s).toWholeLines, fun t s => (hend.inv s).planned t,
    fun t rs hres => hend.post hres⟩

/-- Three readers and the task that waits for a child. -/
def sharedSink : Nat → Option (List SinkCall)
  | 0 => some [.append .stdout "ab"]
  | 1 => some [.append .stdout "c", .append .stdout "d"]
  | 2 => some [.append .stderr "e"]
  | 3 => some [.flush]
  | _ => none

/-- A task goes on, and a write takes one byte. -/
def sinkGoes (t : Nat) : Move sinkMachine := .pass t (.takes 1)

/-- The bytes on their way come to the disk. -/
def sinkLands (s : LogStream) : Move sinkMachine := .tick (s, .ok ())

/-- The first task is dropped after one byte, and two lines of the second one follow it. -/
def droppedInLine : List (Move sinkMachine) :=
  [sinkGoes 0, sinkGoes 0, sinkLands .stdout, .drop 0, sinkGoes 1, sinkGoes 1, sinkGoes 2,
   sinkLands .stdout, sinkGoes 1, sinkGoes 2, sinkGoes 1, sinkLands .stdout, sinkGoes 1,
   sinkLands .stdout, sinkGoes 1, sinkGoes 3, sinkLands .stdout, sinkGoes 3, sinkLands .stderr,
   sinkGoes 2, sinkGoes 3, sinkLands .stderr, sinkGoes 3]

theorem lines_stay_whole_dropped : ∃ c,
    (sinkUsers (fun _ => [0x0A]) sharedSink).run droppedInLine = some c ∧
    (c.result 3 = some [.ok ()] ∧ (c.world.file .stdout).disk = toUtf8 "\nac\nd\n" ∧
      (c.world.file .stderr).disk = toUtf8 "\ne\n") ∧
    (∀ s, (c.world.file s).WholeLines [0x0A] c.world.dropped) ∧
    (∀ t s, (c.world.file s).linesOf t <+: planOf sharedSink t s) ∧
    ∀ t rs, c.result t = some rs → LinesTold (fun _ => [0x0A]) sharedSink t rs c.world := by
  have hreached : ∃ c, (sinkUsers (fun _ => [0x0A]) sharedSink).run droppedInLine = some c ∧
      c.result 3 = some [.ok ()] ∧ (c.world.file .stdout).disk = toUtf8 "\nac\nd\n" ∧
      (c.world.file .stderr).disk = toUtf8 "\ne\n" :=
    Config.exists_run (by decide +kernel)
  obtain ⟨c, hrun, hc⟩ := hreached
  exact ⟨c, hrun, hc, lines_stay_whole hrun⟩

end Runs

end Tssrun

/-
# The store in a directory refines the in-memory store

What the directory holds is, file by file, what the map holds (`Holds`), and every operation keeps
it so.  The snapshots must be read back from what is written of them (`JobSnapshot.Faithful`); this
is shown of both types of snapshots, so that both stores have the same runs (`fileSystem_refines`).
-/
import SlurmRunner.StateStore.FileSystem
import SlurmRunner.Sbatch.Codec
import SlurmRunner.Tssrun.Codec

namespace StateStore

open Text Serde

variable {S Bytes : Type}

/-! ## 1. The simulation

A directory stands for a list of snapshots, in the order of its files.  Each method does the same on
both. -/

section Simulation

variable {J : JobSnapshot S} {P : S → Prop} {names : List Str} (U : UuidFormat)
  (txt : JsonText Bytes)

/-- The directory holds the files of these snapshots. -/
def Holds (J : JobSnapshot S) (P : S → Prop) (root : Root Bytes) (m : List S) : Prop :=
  root.files = m.map (entry J U txt) ∧ ∀ s ∈ m, P s

/-- The files are read back, one by one. -/
theorem scan_entries (h : J.Faithful P names) {l : List S} (hl : ∀ s ∈ l, P s) :
    scan J txt (l.map (entry J U txt)) = l := by
  induction l with
  | nil => rfl
  | cons s l ih =>
    have hs : P s := hl s List.mem_cons_self
    have hrest := ih fun s' hs' => hl s' (List.mem_cons_of_mem s hs')
    rw [scan] at hrest
    rw [scan, List.map_cons, List.filterMap_cons_some (b := s), hrest]
    simp only [entry, extension_pathFor, if_true, decode_written txt h hs]

/-- A file that is removed is a snapshot that is removed. -/
theorem filter_entries (u : Nat) (m : List S) :
    (m.map (entry J U txt)).filter (fun e => e.1 ≠ pathFor U u)
      = (m.filter fun s => J.uuid s ≠ u).map (entry J U txt) := by
  rw [List.filter_map]
  congr 1
  refine List.filter_congr fun s _ => ?_
  simp [entry, (pathFor_injective U).eq_iff]

/-- A file is found under the uuid of its snapshot. -/
theorem find_entry (u : Nat) (m : List S) :
    (m.map (entry J U txt)).find? (fun e => e.1 = pathFor U u)
      = (m.find? fun s => J.uuid s = u).map (entry J U txt) := by
  rw [List.find?_map]
  congr 2
  funext s
  simp [entry, (pathFor_injective U).eq_iff]

/-- Every operation of the directory store does what the in-memory store does. -/
theorem simulation (h : J.Faithful P names) :
    Simulation P (fileSystem J U txt) (inMemory J) (Holds U txt J P) where
  fresh := ⟨rfl, by simp [inMemory]⟩
  save {root m s} hs hR := by
    obtain ⟨hfiles, hm⟩ := hR
    rw [save_eq U txt h hs]
    refine ⟨rfl, ?_, ?_⟩
    · simp only [inMemory, Root.files_persist, hfiles, filter_entries, List.map_cons, entry]
    · intro s' hs'
      rcases List.mem_cons.mp hs' with rfl | hs'
      · exact hs
      · exact hm s' (List.mem_of_mem_filter hs')
  load {root m} hR u := by
    obtain ⟨hfiles, hm⟩ := hR
    simp only [fileSystem, inMemory, Root.read, hfiles, find_entry]
    cases hfind : m.find? (fun s => J.uuid s = u) with
    | none => rfl
    | some s =>
      simp only [Option.map_some, entry]
      exact decode_written txt h (hm s (List.mem_of_find?_eq_some hfind)) _
  lists {root m} hR l := by
    obtain ⟨hfiles, hm⟩ := hR
    simp only [fileSystem, inMemory, hfiles]
    constructor
    · rintro ⟨entries, hperm, rfl⟩
      rw [← scan_entries U txt h hm]
      exact hperm.filterMap _
    · intro hperm
      have hl : ∀ s ∈ l, P s := fun s hs => hm s (hperm.mem_iff.mp hs)
      exact ⟨l.map (entry J U txt), hperm.map _, (scan_entries U txt h hl).symm⟩
  delete {root m} hR u := by
    obtain ⟨hfiles, hm⟩ := hR
    refine ⟨rfl, ?_, fun s hs => hm s (List.mem_of_mem_filter hs)⟩
    simp only [fileSystem, inMemory, Root.files_removeFile, hfiles, filter_entries]

end Simulation

/-! ## 2. The two types of snapshots

Both codecs are faithful on what can be stored: the fields are read back, and the tags are none of
them. -/

/-- `JobSnapshot for SbatchJobSnapshot`. -/
def sbatch (U T : TextFormat Nat) : JobSnapshot Sbatch.SbatchJobSnapshot where
  uuid := Sbatch.SbatchJobSnapshot.uuid
  jobid s := some s.jobid
  kind := "sbatch"
  toValue := Sbatch.SbatchJobSnapshot.toValue U T
  fromValue := Sbatch.SbatchJobSnapshot.reader U T

/-- `JobSnapshot for TssrunJobSnapshot`. -/
def tssrun (U : TextFormat Nat) : JobSnapshot Tssrun.TssrunJobSnapshot where
  uuid := Tssrun.TssrunJobSnapshot.uuid
  jobid := Tssrun.TssrunJobSnapshot.jobid
  kind := "tssrun"
  toValue := Tssrun.TssrunJobSnapshot.toValue U
  fromValue := Tssrun.TssrunJobSnapshot.reader U false

/-- The codec of the sbatch snapshots. -/
theorem sbatch_faithful (U T : TextFormat Nat) :
    (sbatch U T).Faithful Sbatch.SbatchJobSnapshot.Storable Sbatch.SbatchJobSnapshot.names where
  untagged := by decide +kernel
  toValue s hs := by
    refine ⟨_, rfl, List.map_fst_zip (Nat.le_refl _), ?_, ?_⟩
    · exact writeRecord_isPlain Sbatch.SbatchJobSnapshot.names_nodup rfl
        (Sbatch.SbatchJobSnapshot.values_isPlain U T hs)
    · exact Sbatch.SbatchJobSnapshot.reader_append U T hs
        (tags_notMem (by decide +kernel) "sbatch" schemaVersion)

/-- The codec of the tssrun snapshots. -/
theorem tssrun_faithful (U : TextFormat Nat) :
    (tssrun U).Faithful Tssrun.TssrunJobSnapshot.Storable Tssrun.TssrunJobSnapshot.names where
  untagged := by decide +kernel
  toValue s hs := by
    refine ⟨_, rfl, List.map_fst_zip (Nat.le_refl _), ?_, ?_⟩
    · exact writeRecord_isPlain Tssrun.TssrunJobSnapshot.names_nodup rfl
        (Tssrun.TssrunJobSnapshot.values_isPlain U hs)
    · exact Tssrun.TssrunJobSnapshot.reader_append U false hs
        (tags_notMem (by decide +kernel) "tssrun" schemaVersion)

/-- The store in a directory refines the in-memory store, for both types of snapshots, and what
it writes of a snapshot decodes to the snapshot. -/
theorem fileSystem_refines (U : UuidFormat) (T : TextFormat Nat) (txt : JsonText Bytes) :
    (Refines (sbatch U.toTextFormat T) Sbatch.SbatchJobSnapshot.Storable
        (fileSystem (sbatch U.toTextFormat T) U txt) ∧
      Refines (tssrun U.toTextFormat) Tssrun.TssrunJobSnapshot.Storable
        (fileSystem (tssrun U.toTextFormat) U txt)) ∧
    (∀ (s : Sbatch.SbatchJobSnapshot) (file : Str), s.Storable →
      decodeWithKindCheck (sbatch U.toTextFormat T) txt file
        (written (sbatch U.toTextFormat T) txt s) = .ok (some s)) ∧
    ∀ (s : Tssrun.TssrunJobSnapshot) (file : Str), s.Storable →
      decodeWithKindCheck (tssrun U.toTextFormat) txt file
        (written (tssrun U.toTextFormat) txt s) = .ok (some s) := by
  refine ⟨⟨?_, ?_⟩, ?_, ?_⟩
  · exact (simulation U txt (sbatch_faithful U.toTextFormat T)).refines
  · exact (simulation U txt (tssrun_faithful U.toTextFormat)).refines
  · exact fun s file hs => decode_written txt (sbatch_faithful U.toTextFormat T) hs file
  · exact fun s file hs => decode_written txt (tssrun_faithful U.toTextFormat) hs file

/-- RFC 3339, of the time 0; any other time is written as a number. -/
def epoch : TextFormat Nat where
  write t := if t = 0 then "1970-01-01T00:00:00Z" else hex t t
  read s := if s = "1970-01-01T00:00:00Z" then some 0 else some (readHex 0 s)
  read_write t := by
    by_cases ht : t = 0
    · simp [ht]
    · have hne : hex t t ≠ "1970-01-01T00:00:00Z" := by
        intro he
        have hfilter := filter_hex t t
        rw [he] at hfilter
        revert hfilter
        decide
      rw [if_neg ht, if_neg hne, readHex_hex, Nat.mod_eq_of_lt (Nat.lt_pow_self (by omega))]
      simp

/-- A job that waits for a reason that the table does not have. -/
def waiting : Sbatch.SbatchJobSnapshot :=
  { Sbatch.SbatchJobSnapshot.submitted 7 12345 (some 3) with
    sentEnv := [("OMP_NUM_THREADS", "4")]
    lifecycle := ⟨some ⟨.pending, Slurm.JobReason.parse "FairShare"⟩, some 0, false, none⟩ }

/-- A job that was just submitted. -/
theorem waiting_storable : waiting.Storable where
  observed status h := by
    have hstatus : ⟨.pending, Slurm.JobReason.parse "FairShare"⟩ = status := Option.some.inj h
    rw [← hstatus]
    exact ⟨"FairShare", rfl⟩
  finished f h := by cases h
  sentEnv := by decide

/-- It is saved, loaded, listed and deleted. -/
theorem fileSystem_refines_waiting :
    (∃ root, (fileSystem (sbatch UuidFormat.hyphenated.toTextFormat epoch) .hyphenated
        .documents).Runs (sbatch UuidFormat.hyphenated.toTextFormat epoch) none
      [.save waiting, .load 7, .list, .delete 7, .load 7]
      [.done (.ok ()), .loaded (.ok (some waiting)), .listed [waiting], .done (.ok ()),
        .loaded (.ok none)] root) ∧
    decodeWithKindCheck (sbatch UuidFormat.hyphenated.toTextFormat epoch) .documents
      "00000000-0000-0000-0000-000000000007.json"
      (written (sbatch UuidFormat.hyphenated.toTextFormat epoch) .documents waiting)
      = .ok (some waiting) := by
  obtain ⟨⟨href, _⟩, hdecode, _⟩ :=
    fileSystem_refines UuidFormat.hyphenated epoch JsonText.documents
  refine ⟨(href.runs _ ?_ _).mpr ⟨[], ?_⟩, hdecode waiting _ waiting_storable⟩
  · intro snap hsnap
    obtain rfl : snap = waiting := by simpa using hsnap
    exact waiting_storable
  · exact .cons ⟨rfl, rfl⟩ <| .cons ⟨rfl, rfl⟩ <|
      .cons ⟨⟨[waiting], .refl _, rfl⟩, rfl⟩ <| .cons ⟨rfl, rfl⟩ <| .cons ⟨rfl, rfl⟩ <| .nil _

end StateStore

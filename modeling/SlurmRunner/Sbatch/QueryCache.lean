/-
# The single-flight batch cache of status queries

`QueryCachingDispatcher` serves the queries of one shape from a slot with a time to live and
passes every other command line on.  The slot is shared by all handles of a manager, and its lock
is held across the inner call.

The three shapes are the `qgroup -l` listing (no keys), the squeue summary query and the sacct
exit-code query (both keyed by `JobKey`).  `SbatchManager` hands every handle that it makes a
dispatcher with the three caches layered in.
-/
import Mathlib.Data.List.Sort
import Mathlib.Data.List.Destutter
import SlurmRunner.Sbatch.World

namespace Sbatch

open Text Slurm Interact

/-! ## 1. Shapes

A shape says which command lines a cache takes, and how one is built for a batch of keys. -/

/-- One batchable argv form: how to recognise it and read the keys it asks for, how to build the
query for a batch of keys, and the suffix of a replayed error. -/
structure QueryShape (κ : Type) where
  parse : Argv → Option (List κ)
  build : List κ → Argv
  replayMarker : Str

/-- The longest `Duration`. -/
def Duration.max : Nat := (2 ^ 64 - 1) * 10 ^ 9 + 999999999

/-- `Duration::saturating_mul`. -/
def Duration.saturatingMul (d : Nat) (n : Nat) : Nat := min (d * n) Duration.max

/-! ## 2. The cache

`caching_capture` under the lock of its slot: it replays the entry that is there, or it sends one
command for all keys that were asked for lately and stores its answer. -/

section Cache

variable {κ : Type} [LinearOrder κ]

/-- Every requested key was last asked for now. -/
def stampRecent (recent : List (κ × Nat)) (requested : List κ) (now : Nat) :
    List (κ × Nat) :=
  requested.foldl (fun m k => (k, now) :: m.filter (·.1 ≠ k)) recent

/-- The keys asked for less than `window` ago. -/
def retainRecent (recent : List (κ × Nat)) (window : Nat) (now : Nat) :
    List (κ × Nat) :=
  recent.filter fun kt => now - kt.2 < window

/-- The keys of the next live query: sorted, without duplicates. -/
def batchOf (recent : List (κ × Nat)) (requested : List κ) : List κ :=
  ((recent.map Prod.fst ++ requested).insertionSort (· ≤ ·)).destutter (· ≠ ·)

/-- The stored entry, if it may answer the request: it is younger than `ttl` and asked about
every requested key. -/
def replayable (entry : Option (CachedEntry κ)) (ttl : Nat) (requested : List κ)
    (now : Nat) : Option (CachedEntry κ) :=
  entry.filter fun e => now - e.storedAt < ttl && requested.all (· ∈ e.keys)

/-- A stored answer as it is replayed: an error is marked. -/
def replay (result : Answer) (marker : Str) : Answer :=
  match result with
  | .ok out => .ok out
  | .error msg => .error (msg ++ (" " : Str) ++ marker)

end Cache

section Capture

variable {ι : Type} {K : ι → Type}

/-- `QueryCachingDispatcher::capture`, on slot `i`. -/
def cachingCapture (i : ι) [LinearOrder (K i)] (shape : QueryShape (K i)) (ttl : Nat)
    (inner : Dispatcher K) : Dispatcher K := fun argv =>
  match shape.parse argv with
  | none => inner argv
  | some requested => do
    lockSlot i requested
    let slot ← getSlot i
    let t ← now
    let recent := stampRecent slot.recent requested t
    putRecent i recent
    match replayable slot.entry ttl requested t with
    | some entry =>
      unlockSlot i
      return replay entry.result shape.replayMarker
    | none =>
      -- twice the ttl: a polling handle stamps its key once per ttl
      let recent := retainRecent recent (Duration.saturatingMul ttl 2) t
      putRecent i recent
      let batch := batchOf recent requested
      let fetched ← inner (shape.build batch)
      let storedAt ← now
      putEntry i ⟨storedAt, batch, fetched⟩
      unlockSlot i
      return fetched

/-- A command line of another form is passed on as it is. -/
theorem cachingCapture_of_none {i : ι} [LinearOrder (K i)] {shape : QueryShape (K i)}
    {ttl : Nat} {inner : Dispatcher K} {argv : Argv} (h : shape.parse argv = none) :
    cachingCapture i shape ttl inner argv = inner argv := by
  simp only [cachingCapture, h]

end Capture

/-! ## 3. Keys

A key is a job, or a task of an array.  The keys of a batch go into one command line in a fixed
order. -/

/-- The unit of batching: a plain job id or one task of an array. -/
inductive JobKey where
  | plain (id : JobId)
  | arrayTask (master : JobId) (index : TaskIndex)
deriving DecidableEq, Repr

namespace JobKey

/-- `Display`. -/
def display : JobKey → Str
  | plain id => decimal id.toNat
  | arrayTask master index => decimal master.toNat ++ '_' :: decimal index.toNat

/-- `"123"` is a plain key, `"123_4"` a task; anything else is none. -/
def parse (token : Str) : Option JobKey :=
  match splitOnce '_' token with
  | none => (parseU64 token).map plain
  | some (master, index) => do
    let m ← parseU64 master
    let i ← parseU32 index
    some (arrayTask m i)

/-- Parse a comma-separated `-j` value; `none` if any token fails. -/
def parseCsv (csv : Str) : Option (List JobKey) := (csv.splitOn ',').mapM parse

/-- Join a batch into a `-j` value. -/
def buildCsv (batch : List JobKey) : Str := List.intercalate [','] (batch.map display)

/-- The position of a key in the order: plain keys first, then by master and index. -/
def rank : JobKey → Nat
  | plain id => id.toNat
  | arrayTask master index => 2 ^ 64 + master.toNat * 2 ^ 32 + index.toNat

/-- Different keys have different ranks, so the order is linear. -/
theorem rank_injective : Function.Injective rank := by
  intro a b h
  cases a with
  | plain x =>
    cases b with
    | plain y => exact congrArg plain (UInt64.toNat_inj.mp h)
    | arrayTask m i =>
      have hx := x.toNat_lt
      simp only [rank] at h
      omega
  | arrayTask m i =>
    cases b with
    | plain y =>
      have hy := y.toNat_lt
      simp only [rank] at h
      omega
    | arrayTask m' i' =>
      have hi := i.toNat_lt
      have hi' := i'.toNat_lt
      simp only [rank] at h
      have h1 : m.toNat = m'.toNat := by omega
      have h2 : i.toNat = i'.toNat := by omega
      rw [UInt64.toNat_inj.mp h1, UInt32.toNat_inj.mp h2]

instance : LinearOrder JobKey := LinearOrder.lift' rank rank_injective

/-! ### Printing and reading keys -/

/-- A printed key has no comma, so a list of them can be split. -/
theorem display_ne_comma (k : JobKey) : ',' ∉ k.display := by
  cases k with
  | plain id => exact not_mem_decimal rfl
  | arrayTask master index =>
    simp only [display, List.mem_append, List.mem_cons, not_or]
    exact ⟨not_mem_decimal rfl, by decide, not_mem_decimal rfl⟩

/-- **A printed key is read back.** -/
@[simp] theorem parse_display (k : JobKey) : parse k.display = some k := by
  cases k with
  | plain id =>
    have h : '_' ∉ decimal id.toNat := not_mem_decimal rfl
    simp [parse, display, splitOnce_eq_none h]
  | arrayTask master index =>
    have h : '_' ∉ decimal master.toNat := not_mem_decimal rfl
    simp [parse, display, splitOnce_append h]

/-- A printed key tells which key it is. -/
theorem display_injective {k k' : JobKey} (h : k.display = k'.display) : k = k' := by
  have hk := parse_display k
  rw [h, parse_display] at hk
  exact (Option.some.inj hk).symm

/-- Printed keys are read back. -/
theorem mapM_parse_display (batch : List JobKey) :
    (batch.map display).mapM parse = some batch := by
  induction batch with
  | nil => rfl
  | cons k ks ih => simp [List.mapM_cons, ih]

/-- **A `-j` value that was built from keys is read back as these keys.** -/
theorem parseCsv_buildCsv {batch : List JobKey} (hne : batch ≠ []) :
    parseCsv (buildCsv batch) = some batch := by
  have hcomma : ∀ l ∈ batch.map display, ',' ∉ l := by
    intro l hl
    obtain ⟨k, -, rfl⟩ := List.mem_map.mp hl
    exact display_ne_comma k
  rw [parseCsv, buildCsv, List.splitOn_intercalate ',' hcomma (by simpa using hne)]
  exact mapM_parse_display batch

end JobKey

/-! ## 4. The three shapes

One for each of the query programs; the listing of qgroup has no keys in it. -/

/-- `-o` format of the squeue summary query. -/
def summaryFormat : Str := "%i %T %r"

/-- `-o` columns of the sacct exit-code query. -/
def exitCodeColumns : Str := "JobID,State,Reason,ExitCode"

/-- The exact `qgroup -l` listing: a shape without keys. -/
def qgroupListingShape : QueryShape JobId where
  parse argv := if argv = ["qgroup", "-l"] then some [] else none
  build _ := ["qgroup", "-l"]
  replayMarker := "(replayed from qgroup cache)"

/-- `squeue -h -r -j <key[,key…]> -o "%i %T %r"`. -/
def squeueSummaryShape : QueryShape JobKey where
  parse argv :=
    match argv with
    | [a₀, a₁, a₂, a₃, csv, a₅, a₆] =>
      if a₀ = "squeue" ∧ a₁ = "-h" ∧ a₂ = "-r" ∧ a₃ = "-j" ∧ a₅ = "-o" ∧ a₆ = summaryFormat then
        JobKey.parseCsv csv
      else none
    | _ => none
  build batch := ["squeue", "-h", "-r", "-j", JobKey.buildCsv batch, "-o", summaryFormat]
  replayMarker := "(replayed from squeue batch cache)"

/-- `sacct -P -n -j <key[,key…]> -o JobID,State,Reason,ExitCode`. -/
def sacctExitCodeShape : QueryShape JobKey where
  parse argv :=
    match argv with
    | [a₀, a₁, a₂, a₃, csv, a₅, a₆] =>
      if a₀ = "sacct" ∧ a₁ = "-P" ∧ a₂ = "-n" ∧ a₃ = "-j" ∧ a₅ = "-o" ∧ a₆ = exitCodeColumns then
        JobKey.parseCsv csv
      else none
    | _ => none
  build batch := ["sacct", "-P", "-n", "-j", JobKey.buildCsv batch, "-o", exitCodeColumns]
  replayMarker := "(replayed from sacct batch cache)"

/-- A command line that was built for a batch is taken for that batch. -/
theorem squeue_parse_build {batch : List JobKey} (hne : batch ≠ []) :
    squeueSummaryShape.parse (squeueSummaryShape.build batch) = some batch := by
  unfold squeueSummaryShape
  dsimp only
  rw [if_pos ⟨rfl, rfl, rfl, rfl, rfl, rfl⟩]
  exact JobKey.parseCsv_buildCsv hne

/-- The same of the sacct queries. -/
theorem sacct_parse_build {batch : List JobKey} (hne : batch ≠ []) :
    sacctExitCodeShape.parse (sacctExitCodeShape.build batch) = some batch := by
  unfold sacctExitCodeShape
  dsimp only
  rw [if_pos ⟨rfl, rfl, rfl, rfl, rfl, rfl⟩]
  exact JobKey.parseCsv_buildCsv hne

/-! ## 5. The batch

The keys that were asked for within the last `ttl`, each once and in order, and those of the
request. -/

section Batch

variable {κ : Type} [LinearOrder κ]

/-- Repeated keys that follow each other are left out, and no key is lost. -/
theorem mem_destutter'_ne (l : List κ) (b x : κ) :
    x ∈ l.destutter' (· ≠ ·) b ↔ x = b ∨ x ∈ l := by
  induction l generalizing b with
  | nil => simp
  | cons a l ih =>
    by_cases h : b ≠ a
    · rw [List.destutter'_cons_pos l h, List.mem_cons, ih, List.mem_cons]
    · rw [List.destutter'_cons_neg l h, ih, List.mem_cons]
      have hab : b = a := not_not.mp h
      constructor
      · rintro (hx | hx)
        · exact .inl hx
        · exact .inr (.inr hx)
      · rintro (hx | hx | hx)
        · exact .inl hx
        · exact .inl (hx.trans hab.symm)
        · exact .inr hx

theorem mem_destutter_ne {l : List κ} {x : κ} : x ∈ l.destutter (· ≠ ·) ↔ x ∈ l := by
  cases l with
  | nil => rfl
  | cons a l => rw [List.destutter_cons', mem_destutter'_ne, List.mem_cons]

/-- A live query asks for exactly the registered and the requested keys. -/
theorem mem_batchOf {recent : List (κ × Nat)} {requested : List κ} {k : κ} :
    k ∈ batchOf recent requested ↔ k ∈ recent.map Prod.fst ∨ k ∈ requested := by
  rw [batchOf, mem_destutter_ne, List.mem_insertionSort, List.mem_append]

/-- What is asked for is in the batch. -/
theorem mem_batchOf_of_requested {recent : List (κ × Nat)} {requested : List κ} {k : κ}
    (h : k ∈ requested) : k ∈ batchOf recent requested := mem_batchOf.mpr (.inr h)

end Batch

/-! ## 6. The caches of a manager

Its handles share three caches, one behind the other, and a command line that none of them takes
goes to the scheduler. -/

/-- The three status commands, each with a cache of its own. -/
inductive Tool where
  | qgroup
  | squeue
  | sacct
deriving DecidableEq, Repr

/-- The keys of each cache. -/
abbrev Key : Tool → Type
  | .qgroup => JobId
  | .squeue => JobKey
  | .sacct => JobKey

instance : LinearOrder JobId where
  le_refl := UInt64.le_refl
  le_trans _ _ _ := UInt64.le_trans
  lt_iff_le_not_ge _ _ := by simp only [UInt64.le_iff_toNat_le, UInt64.lt_iff_toNat_lt]; omega
  le_antisymm _ _ := UInt64.le_antisymm
  le_total := UInt64.le_total
  toDecidableLE := inferInstance
  toDecidableEq := inferInstance
  toDecidableLT := inferInstance

instance : (i : Tool) → LinearOrder (Key i)
  | .qgroup => inferInstanceAs (LinearOrder JobId)
  | .squeue => inferInstanceAs (LinearOrder JobKey)
  | .sacct => inferInstanceAs (LinearOrder JobKey)

/-- `SbatchManager::handle_dispatcher`: the sacct cache innermost, the qgroup cache outermost. -/
def handleDispatcher (ttl : Nat) (inner : Dispatcher Key) : Dispatcher Key :=
  let sacctBatched := cachingCapture .sacct sacctExitCodeShape ttl inner
  let squeueBatched := cachingCapture .squeue squeueSummaryShape ttl sacctBatched
  cachingCapture .qgroup qgroupListingShape ttl squeueBatched

end Sbatch

/-
# Attaching to an array

The `attach` functions make handles from what is stored.  After a `spawn_array` they find the tasks
that its loop has saved: all of them when it succeeds (`array_attached`), and the first ones when a
save fails, since nothing is taken back (`unsaved_array`).

A specification may denote an index by two of its entries; `spawn_array` then makes two handles for
one task (`one_handle_per_task_iff`).
-/
import SlurmRunner.Sbatch.Spawn
import SlurmRunner.StateStore.AttachFile

namespace Sbatch

open Text Slurm Interact StateStore

/-! ## 1. Attaching

`attach` looks a snapshot up in the store, by its uuid or by its job id, and makes a handle of
it.  By the job id of an array there are several snapshots, which `attach_array` sorts by their
indices. -/

section Programs

variable {ι : Type} {K : ι → Type}

/-- `attach_uuid`. -/
def attachUuid (u : Nat) : Prog (sig K) (Except SbatchAttachError Nat) := do
  let stored ← loadStore
  match stored.load u with
  | none => return .error (.notFound (.uuid u))
  | some snapshot =>
    let h ← newHandle snapshot
    return .ok h

/-- `attach_jobid`; `scan` is the order in which the store lists its snapshots. -/
def attachJobid (scan : Store → Store) (j : JobId) :
    Prog (sig K) (Except SbatchAttachError Nat) := do
  let stored ← loadStore
  let snaps := (scan stored).findAllByJobid j
  if 1 < snaps.length then return .error (.multipleMatch j snaps.length)
  match snaps.head? with
  | none => return .error (.notFound (.jobId j))
  | some snapshot =>
    let h ← newHandle snapshot
    return .ok h

/-- The order of `Option<u32>`. -/
def taskLe : Option TaskIndex → Option TaskIndex → Bool
  | none, _ => true
  | some _, none => false
  | some i, some j => i ≤ j

/-- The snapshots of the tasks, in the order of their indices. -/
def sortedTasks (snaps : List SbatchJobSnapshot) : List SbatchJobSnapshot :=
  (snaps.filter fun s => s.arrayTaskId.isSome).insertionSort fun s s' =>
    taskLe s.arrayTaskId s'.arrayTaskId

def newHandles : List SbatchJobSnapshot → Prog (sig K) (List Nat)
  | [] => return []
  | snapshot :: snaps => do
    let h ← newHandle snapshot
    let hs ← newHandles snaps
    return h :: hs

/-- `attach_array_jobid`. -/
def attachArrayJobid (scan : Store → Store) (masterJobid : JobId) :
    Prog (sig K) (Except SbatchAttachError (List Nat)) := do
  let stored ← loadStore
  let hs ← newHandles (sortedTasks ((scan stored).findAllByJobid masterJobid))
  return .ok hs

end Programs

/-! ## 2. What attaching does

The attach functions look at the store and make handles, so they always return, the store stays as
it is, and the handles that were there before are untouched. -/

section Runs

variable {ι : Type} [DecidableEq ι] {K : ι → Type} {t : Nat} {ms : List (Input ⊕ Tick)}
  {w w' : World K}

omit [DecidableEq ι] in
/-- A program that only reads the store and makes handles returns. -/
def Attaches : Op K → Prop
  | .store | .newHandle _ => True
  | _ => False

/-- **Attaching returns**: no lock and no answer of the scheduler is waited for. -/
theorem exists_call_of_attaches {α : Type} {p : Prog (sig K) α} (hp : p.Uses Attaches)
    (w : World K) : ∃ ms a w', (machine K).call t p ms w = some (a, w') := by
  refine (machine K).exists_call_of_uses (hp.mono ?_) w
  intro o ho w
  cases o with
  | store => exact ⟨.go, _, rfl⟩
  | newHandle snap => exact ⟨.go, _, rfl⟩
  | _ => cases ho

/-- A new handle has the snapshot that it was made of. -/
theorem call_newHandles {snaps : List SbatchJobSnapshot} {hs : List Nat}
    (h : (machine K).call t (newHandles snaps) ms w = some (hs, w')) :
    hs.map w'.watch = snaps ∧ ∀ n < w.handles, w'.watch n = w.watch n := by
  induction snaps generalizing ms w hs with
  | nil =>
    obtain ⟨rfl, rfl⟩ := (machine K).call_ret h
    exact ⟨rfl, fun _ _ => rfl⟩
  | cons snap snaps ih =>
    obtain ⟨ms₁, w₁, hjobs, h⟩ := call_newHandle h
    obtain ⟨ms₂, ms₃, rest, w₂, rfl, h₂, h⟩ := (machine K).call_bind h
    obtain ⟨rfl, rfl⟩ := (machine K).call_ret h
    obtain ⟨hrest, hwatch⟩ := ih h₂
    have hhandles : w₁.handles = w.handles + 1 := congrArg Jobs.handles hjobs
    have hwatch₁ : w₁.watch = Function.update w.watch w.handles snap := congrArg Jobs.watch hjobs
    have hfirst : w'.watch w.handles = snap := by
      rw [hwatch _ (by omega), hwatch₁, Function.update_self]
    constructor
    · rw [List.map_cons, hrest]
      exact congrArg (· :: snaps) hfirst
    · intro n hn
      rw [hwatch n (by omega), hwatch₁, Function.update_of_ne (Nat.ne_of_lt hn)]

omit [DecidableEq ι] in
/-- One look at the store, and one handle. -/
theorem attachUuid_attaches (u : Nat) : (attachUuid (K := K) u).Uses Attaches := by
  refine Prog.uses_bind (Prog.uses_op trivial) fun stored => ?_
  cases Store.load stored u with
  | none => trivial
  | some snap => exact Prog.uses_bind (Prog.uses_op trivial) fun _ => trivial

/-- **`attach_uuid`** makes a handle from what is stored under the uuid. -/
theorem attachUuid_returns {u : Nat} {snap : SbatchJobSnapshot} (h : w.store.load u = some snap) :
    (machine K).Returns t (attachUuid u) w fun r w' => ∃ n, r = .ok n ∧ w'.watch n = snap := by
  constructor
  · exact exists_call_of_attaches (attachUuid_attaches u) w
  · intro ms r w' hcall
    obtain ⟨ms₁, w₁, hjobs, hcall⟩ := call_loadStore hcall
    have hload : w.jobs.store.load u = some snap := h
    rw [hload] at hcall
    obtain ⟨ms₂, w₂, hjobs₂, hcall⟩ := call_newHandle hcall
    obtain ⟨rfl, rfl⟩ := (machine K).call_ret hcall
    have hwatch : w'.watch = Function.update w₁.watch w₁.handles snap := congrArg Jobs.watch hjobs₂
    refine ⟨w₁.handles, rfl, ?_⟩
    rw [hwatch, Function.update_self]

omit [DecidableEq ι] in
/-- A scan of the store, and one handle at most. -/
theorem attachJobid_attaches (scan : Store → Store) (j : JobId) :
    (attachJobid (K := K) scan j).Uses Attaches := by
  refine Prog.uses_bind (Prog.uses_op trivial) fun stored => ?_
  dsimp only
  split
  · trivial
  · cases ((scan stored).findAllByJobid j).head? with
    | none => trivial
    | some snap => exact Prog.uses_bind (Prog.uses_op trivial) fun _ => trivial

/-- **`attach_jobid`** makes a handle from the one snapshot that matches. -/
theorem attachJobid_returns {scan : Store → Store} {j : JobId} (hscan : ∀ s, (scan s).Perm s)
    {snap : SbatchJobSnapshot} (h : w.store.findAllByJobid j = [snap]) :
    (machine K).Returns t (attachJobid scan j) w fun r w' =>
      ∃ n, r = .ok n ∧ w'.watch n = snap := by
  refine ⟨exists_call_of_attaches (attachJobid_attaches scan j) w, ?_⟩
  intro ms r w' hcall
  obtain ⟨ms₁, w₁, hjobs, hcall⟩ := call_loadStore hcall
  have hfound : (scan w.jobs.store).findAllByJobid j = [snap] := by
    refine List.perm_singleton.mp ?_
    rw [← h]
    exact (hscan w.store).filter _
  simp only [hfound, List.length_singleton, Nat.lt_irrefl, if_false, List.head?_cons] at hcall
  obtain ⟨ms₂, w₂, hjobs₂, hcall⟩ := call_newHandle hcall
  obtain ⟨rfl, rfl⟩ := (machine K).call_ret hcall
  have hwatch : w'.watch = Function.update w₁.watch w₁.handles snap := congrArg Jobs.watch hjobs₂
  refine ⟨w₁.handles, rfl, ?_⟩
  rw [hwatch, Function.update_self]

/-- It refuses to choose between several. -/
theorem attachJobid_multipleMatch {scan : Store → Store} {j : JobId}
    (hscan : ∀ s, (scan s).Perm s) (h : 1 < (w.store.findAllByJobid j).length) :
    (machine K).Returns t (attachJobid scan j) w fun r _ =>
      r = .error (.multipleMatch j (w.store.findAllByJobid j).length) := by
  refine ⟨exists_call_of_attaches (attachJobid_attaches scan j) w, ?_⟩
  intro ms r w' hcall
  obtain ⟨ms₁, w₁, hjobs, hcall⟩ := call_loadStore hcall
  have hlength : ((scan w.jobs.store).findAllByJobid j).length =
      (w.store.findAllByJobid j).length := ((hscan w.store).filter _).length_eq
  simp only [hlength, if_pos h] at hcall
  exact ((machine K).call_ret hcall).1

/-- The order of the tasks: those without an index come first. -/
theorem taskLe_trans (a b c : Option TaskIndex) (h : taskLe a b = true) (h' : taskLe b c = true) :
    taskLe a c = true := by
  cases a <;> cases b <;> cases c <;> simp_all [taskLe]
  exact UInt32.le_trans h h'

/-- Any two tasks can be compared. -/
theorem taskLe_total (a b : Option TaskIndex) : taskLe a b = true ∨ taskLe b a = true := by
  cases a <;> cases b <;> simp [taskLe, UInt32.le_total]

/-- Sorting keeps the tasks and puts them in the order of their indices. -/
theorem sortedTasks_spec (snaps : List SbatchJobSnapshot) :
    (sortedTasks snaps).Perm (snaps.filter fun s => s.arrayTaskId.isSome) ∧
      (sortedTasks snaps).Pairwise fun s s' => taskLe s.arrayTaskId s'.arrayTaskId := by
  have htotal : Std.Total fun s s' : SbatchJobSnapshot =>
      taskLe s.arrayTaskId s'.arrayTaskId = true := ⟨fun s s' => taskLe_total _ _⟩
  have htrans : IsTrans SbatchJobSnapshot fun s s' =>
      taskLe s.arrayTaskId s'.arrayTaskId = true := ⟨fun s s' s'' => taskLe_trans _ _ _⟩
  exact ⟨List.perm_insertionSort _ _, List.pairwise_insertionSort _ _⟩

omit [DecidableEq ι] in
/-- A handle for each snapshot. -/
theorem newHandles_attaches (snaps : List SbatchJobSnapshot) :
    (newHandles (K := K) snaps).Uses Attaches := by
  induction snaps with
  | nil => trivial
  | cons snap snaps ih =>
    exact Prog.uses_bind (Prog.uses_op trivial) fun h => Prog.uses_bind ih fun _ => trivial

omit [DecidableEq ι] in
/-- A scan of the store, and a handle for each task. -/
theorem attachArrayJobid_attaches (scan : Store → Store) (j : JobId) :
    (attachArrayJobid (K := K) scan j).Uses Attaches := by
  refine Prog.uses_bind (Prog.uses_op trivial) fun stored => ?_
  exact Prog.uses_bind (newHandles_attaches _) fun _ => trivial

/-- **`attach_array_jobid`** makes a handle from each task that is stored under the job id, in the
order of the indices. -/
theorem attachArrayJobid_returns {scan : Store → Store} {j : JobId}
    (hscan : ∀ s, (scan s).Perm s) :
    (machine K).Returns t (attachArrayJobid scan j) w fun r w' => ∃ hs, r = .ok hs ∧
      (hs.map w'.watch).Perm ((w.store.findAllByJobid j).filter fun s => s.arrayTaskId.isSome) ∧
      (hs.map w'.watch).Pairwise fun s s' => taskLe s.arrayTaskId s'.arrayTaskId := by
  refine ⟨exists_call_of_attaches (attachArrayJobid_attaches scan j) w, ?_⟩
  intro ms r w' hcall
  obtain ⟨ms₁, w₁, hjobs, hcall⟩ := call_loadStore hcall
  obtain ⟨ms₂, ms₃, hs, w₂, rfl, h₂, hcall⟩ := (machine K).call_bind hcall
  obtain ⟨rfl, rfl⟩ := (machine K).call_ret hcall
  obtain ⟨hwatch, -⟩ := call_newHandles h₂
  obtain ⟨hperm, hsorted⟩ := sortedTasks_spec ((scan w.store).findAllByJobid j)
  refine ⟨hs, rfl, ?_, ?_⟩
  · rw [hwatch]
    exact hperm.trans (((hscan w.store).filter _).filter _)
  · rw [hwatch]
    exact hsorted

end Runs

/-! ## 3. What is stored after an array was submitted

`TasksSaved` says which snapshots `spawn_array` has saved.  They have uuids that were not there
before, so each of them can be loaded, and the older ones as well. -/

/-- Saving snapshots with different uuids puts them in front of the others. -/
theorem foldl_save {snaps : List SbatchJobSnapshot} (hnodup : (snaps.map (·.uuid)).Nodup)
    (stored : Store) : snaps.foldl Store.save stored =
      snaps.reverse ++ stored.filter fun s => s.uuid ∉ snaps.map (·.uuid) := by
  induction snaps generalizing stored with
  | nil => simp
  | cons snap snaps ih =>
    rw [List.map_cons, List.nodup_cons] at hnodup
    rw [List.foldl_cons, ih hnodup.2, Store.save, List.filter_cons_of_pos (by simpa using hnodup.1),
      List.filter_filter, List.reverse_cons, List.append_assoc, List.singleton_append]
    congr 3
    funext s
    simp only [List.map_cons, List.mem_cons, not_or, Bool.decide_and, Bool.and_comm]

/-- Saves of other uuids do not change what is loaded. -/
theorem load_foldl_save_of_notMem {snaps : List SbatchJobSnapshot} {u : Nat}
    (h : u ∉ snaps.map (·.uuid)) (stored : Store) :
    (snaps.foldl Store.save stored).load u = stored.load u := by
  induction snaps generalizing stored with
  | nil => rfl
  | cons snap snaps ih =>
    rw [List.map_cons, List.mem_cons, not_or] at h
    rw [List.foldl_cons, ih h.2, Store.load_save_of_ne stored h.1]

/-- Each of them is then what its uuid loads. -/
theorem load_foldl_save {snaps : List SbatchJobSnapshot} (hnodup : (snaps.map (·.uuid)).Nodup)
    (stored : Store) : ∀ s ∈ snaps, (snaps.foldl Store.save stored).load s.uuid = some s := by
  induction snaps generalizing stored with
  | nil =>
    intro s hs
    cases hs
  | cons snap snaps ih =>
    rw [List.map_cons, List.nodup_cons] at hnodup
    intro s hs
    rcases List.mem_cons.mp hs with rfl | hs
    · rw [List.foldl_cons, load_foldl_save_of_notMem hnodup.1, Store.load_save_self]
    · exact ih hnodup.2 _ s hs

namespace TasksSaved

variable {jobid : JobId} {indices : List TaskIndex} {jobs jobs' : Jobs}
  {snaps : List SbatchJobSnapshot}

/-- The uuids of the tasks are drawn one after another. -/
theorem uuids_nodup (h : TasksSaved jobid indices jobs jobs' snaps) :
    (snaps.map (·.uuid)).Nodup := by
  rw [h.uuids]
  exact Supply.nodup_block

/-- Each task is loaded by its uuid. -/
theorem load (h : TasksSaved jobid indices jobs jobs' snaps) {s : SbatchJobSnapshot}
    (hs : s ∈ snaps) : jobs'.store.load s.uuid = some s := by
  rw [h.store]
  exact load_foldl_save h.uuids_nodup _ s hs

/-- Under a new job id, the store has the tasks that were saved and no others. -/
theorem findAllByJobid (h : TasksSaved jobid indices jobs jobs' snaps)
    (hnew : ∀ s ∈ jobs.store, s.jobid ≠ jobid) :
    jobs'.store.findAllByJobid jobid = snaps.reverse := by
  have hsnaps : snaps.reverse.filter (·.jobid = jobid) = snaps.reverse :=
    List.filter_eq_self.mpr fun s hs => by simpa using h.jobid s (List.mem_reverse.mp hs)
  have hothers : (jobs.store.filter fun s => s.uuid ∉ snaps.map (·.uuid)).filter
      (·.jobid = jobid) = [] := by
    refine List.filter_eq_nil_iff.mpr fun s hs => ?_
    simpa using hnew s (List.mem_of_mem_filter hs)
  rw [h.store, foldl_save h.uuids_nodup, Store.findAllByJobid, List.filter_append, hsnaps, hothers,
    List.append_nil]

/-- Each of them is a task. -/
theorem isTask (h : TasksSaved jobid indices jobs jobs' snaps) {s : SbatchJobSnapshot}
    (hs : s ∈ snaps) : s.arrayTaskId.isSome = true := by
  have hmem : s.arrayTaskId ∈ (indices.take snaps.length).map some :=
    h.tasks ▸ List.mem_map_of_mem hs
  obtain ⟨i, -, hi⟩ := List.mem_map.mp hmem
  rw [← hi]
  rfl

end TasksSaved

/-! ## 4. Attaching to all tasks

What the scan returns may come in any order; the tasks are sorted after it. -/

section Arrays

variable {ι : Type} [DecidableEq ι] {K : ι → Type} {t : Nat} {ms : List (Input ⊕ Tick)}
  {w w' : World K} {cmd : SbatchCmd} {dirs : CurrentDirs} {arraySpec : SlurmArraySpec}
  {jobid : JobId}

/-- What a `spawn_array` that succeeds has saved: the snapshots of the handles that it returns. -/
theorem tasksSaved_of_spawnArray {hs : List Nat}
    (hcall : (machine K).call t (spawnArray cmd dirs arraySpec) ms w = some (some (.ok hs), w')) :
    ∃ jobid indices asked, (∀ j, SubmittedSince w w' j → j = jobid) ∧
      expandArrayIndices arraySpec = some indices ∧ indices ≠ [] ∧ hs.length = indices.length ∧
      w'.drawn = w.drawn + hs.length ∧
      TasksSaved jobid indices { w.jobs with asked := asked } w'.jobs (hs.map w'.watch) := by
  have hrun := call_spawnArray hcall
  cases hrun with
  | looped hscript hindices hne hsubmit hpath hsaved hend =>
    have hid : ∀ j, SubmittedSince w w' j → j = _ := fun j hj =>
      (Except.ok.inj (hj.eq_ok hsaved.asked hsubmit)).symm
    cases hend with
    | saved hall hsaves hdrawn hwatch =>
      subst hwatch
      rw [List.length_map] at hall hdrawn
      exact ⟨_, _, _, hid, hindices, hne, hall, hdrawn, hsaved⟩

/-- The array attach finds the tasks that were saved, under a job id that was new. -/
theorem TasksSaved.attachArray {indices : List TaskIndex} {jobs jobs' : Jobs}
    {snaps : List SbatchJobSnapshot} (hsaved : TasksSaved jobid indices jobs jobs' snaps)
    (hnew : ∀ s ∈ jobs.store, s.jobid ≠ jobid) {scan : Store → Store}
    (hscan : ∀ s, (scan s).Perm s) (hstore : w.store = jobs'.store) :
    (machine K).Returns t (attachArrayJobid scan jobid) w fun r w₂ => ∃ hs, r = .ok hs ∧
      (hs.map w₂.watch).Perm snaps ∧
      (hs.map w₂.watch).Pairwise fun s s' => taskLe s.arrayTaskId s'.arrayTaskId := by
  obtain ⟨hreturns, hresult⟩ := attachArrayJobid_returns (t := t) (w := w) (j := jobid) hscan
  refine ⟨hreturns, ?_⟩
  intro ms r w₂ hcall
  obtain ⟨hs, hr, hperm, hsorted⟩ := hresult ms r w₂ hcall
  have htasks : snaps.reverse.filter (fun s => s.arrayTaskId.isSome) = snaps.reverse :=
    List.filter_eq_self.mpr fun s hs => hsaved.isTask (List.mem_reverse.mp hs)
  rw [hstore, hsaved.findAllByJobid hnew, htasks] at hperm
  exact ⟨hs, hr, hperm.trans (List.reverse_perm snaps), hsorted⟩

/-- **After a `spawn_array` the attach functions find exactly its tasks**: all of them by the job
id, in the order of their indices, each by its uuid, and the single one, if there is just one, by
`attach_jobid`. -/
theorem array_attached {hs : List Nat}
    (hcall : (machine K).call t (spawnArray cmd dirs arraySpec) ms w = some (some (.ok hs), w'))
    (hmaster : SubmittedSince w w' jobid) (hnew : ∀ s ∈ w.store, s.jobid ≠ jobid)
    {scan : Store → Store} (hscan : ∀ s, (scan s).Perm s) {w₁ : World K}
    (hstore : w₁.store = w'.store) (u : Nat) :
    ((machine K).Returns u (attachArrayJobid scan jobid) w₁ fun r w₂ => ∃ hs₂, r = .ok hs₂ ∧
      (hs₂.map w₂.watch).Perm (hs.map w'.watch) ∧
      (hs₂.map w₂.watch).Pairwise fun s s' => taskLe s.arrayTaskId s'.arrayTaskId) ∧
    (∀ h ∈ hs, (machine K).Returns u (attachUuid (w'.watch h).uuid) w₁ fun r w₂ =>
      ∃ n, r = .ok n ∧ w₂.watch n = w'.watch h) ∧
    (1 < hs.length → (machine K).Returns u (attachJobid scan jobid) w₁ fun r _ =>
      r = .error (.multipleMatch jobid hs.length)) ∧
    (hs.length ≤ 1 → ∃ h, hs = [h] ∧ (machine K).Returns u (attachJobid scan jobid) w₁ fun r w₂ =>
      ∃ n, r = .ok n ∧ w₂.watch n = w'.watch h) := by
  obtain ⟨jobid', indices, asked, hid, -, hne, hlength, -, hsaved⟩ := tasksSaved_of_spawnArray hcall
  cases hid jobid hmaster
  have hfound : w₁.store.findAllByJobid jobid = (hs.map w'.watch).reverse := by
    rw [hstore]
    exact hsaved.findAllByJobid hnew
  have hcount : (w₁.store.findAllByJobid jobid).length = hs.length := by
    rw [hfound, List.length_reverse, List.length_map]
  refine ⟨hsaved.attachArray hnew hscan hstore, ?_, ?_, ?_⟩
  · intro h hh
    refine attachUuid_returns ?_
    rw [hstore]
    exact hsaved.load (List.mem_map_of_mem hh)
  · intro hmany
    have hrefused := attachJobid_multipleMatch (t := u) hscan (hcount ▸ hmany)
    rwa [hcount] at hrefused
  · intro hone
    have hpos : 0 < indices.length := List.length_pos_iff.mpr hne
    obtain ⟨h, rfl⟩ := List.length_eq_one_iff.mp (by omega : hs.length = 1)
    exact ⟨h, rfl, attachJobid_returns hscan hfound⟩

/-- sbatch prints the job id 7, and both tasks are saved. -/
def twoSaved : List (Input ⊕ Tick) :=
  goesOn 1 ++ answers "Submitted batch job 7\n" ++ goesOn 2 ++ storesIt ++ goesOn 3 ++ storesIt ++
    goesOn 1

/-- The answer that was checked is the answer. -/
theorem eq_some_of_any {α : Type} [DecidableEq α] {r : Option α} {a : α}
    (h : (r.any fun x => x = a) = true) : r = some a := by
  obtain ⟨x, rfl, hx⟩ := (Option.any_eq_true _ _).mp h
  exact congrArg some (of_decide_eq_true hx)

/-- Two tasks, given in the other order: the job id alone is ambiguous. -/
theorem array_attached_two : ∃ w',
    (machine Key).call 0 (spawnArray (.new "/w/job.sh") ⟨.error [], .error [], .error []⟩
      ⟨[.single 2, .single 1], none⟩) twoSaved nothingAsked = some (some (.ok [0, 1]), w') ∧
    (machine Key).Returns 0 (attachJobid id 7) w' fun r _ => r = .error (.multipleMatch 7 2) := by
  obtain ⟨r, w', hcall, hr, hasked⟩ : ∃ r w', (machine Key).call 0
      (spawnArray (.new "/w/job.sh") ⟨.error [], .error [], .error []⟩
        ⟨[.single 2, .single 1], none⟩) twoSaved nothingAsked = some (r, w') ∧
        (r.any fun result => result = .ok [0, 1]) = true ∧
        askedSoFar w' = printsSeven ["sbatch", "-a", "2,1", "/w/job.sh"] :=
    (machine Key).exists_call (by decide +kernel)
  cases eq_some_of_any hr
  refine ⟨w', hcall, ?_⟩
  exact (array_attached hcall (submittedSince_of_printsSeven hasked) (by intro s hs; cases hs)
    (fun s => List.Perm.refl s) rfl 0).2.2.1 (by decide)

/-! ## 5. One handle for each task

`expand_array_indices` lists an index once for each entry that has it, so an array whose entries
overlap has two handles for one task. -/

/-- Every index of the specification stands once in the list of tasks, and nothing else does. -/
def OneEach (arraySpec : SlurmArraySpec) (tasks : List (Option TaskIndex)) : Prop :=
  tasks.Nodup ∧ ∀ task, task ∈ tasks ↔ ∃ i, task = some i ∧ arraySpec.Denotes i

/-- The snapshots in the store whose uuids were drawn since `w`. -/
def storedSince (w w' : World K) : List SbatchJobSnapshot :=
  w'.store.filter fun s => s.uuid ∈ w.uuids.block w.drawn (w'.drawn - w.drawn)

omit [DecidableEq ι] in
/-- There is one for each index exactly if no index is listed twice. -/
theorem oneEach_map_some_iff {indices : List TaskIndex}
    (hmem : ∀ i, i ∈ indices ↔ arraySpec.Denotes i) :
    OneEach arraySpec (indices.map some) ↔ indices.Nodup := by
  constructor
  · intro h
    exact List.Nodup.of_map some h.1
  · intro h
    refine ⟨h.map (Option.some_injective _), ?_⟩
    intro task
    rw [List.mem_map]
    constructor
    · rintro ⟨i, hi, rfl⟩
      exact ⟨i, rfl, (hmem i).mp hi⟩
    · rintro ⟨i, rfl, hi⟩
      exact ⟨i, (hmem i).mpr hi, rfl⟩

/-- The order does not matter. -/
theorem OneEach.perm_iff {tasks tasks' : List (Option TaskIndex)} (h : tasks.Perm tasks') :
    OneEach arraySpec tasks ↔ OneEach arraySpec tasks' := by
  simp only [OneEach, h.nodup_iff, h.mem_iff]

omit [DecidableEq ι] in
/-- What was stored under the new uuids is what the loop has saved. -/
theorem storedSince_eq {indices : List TaskIndex} {asked : List (Argv × Answer)}
    {snaps : List SbatchJobSnapshot}
    (hsaved : TasksSaved jobid indices { w.jobs with asked := asked } w'.jobs snaps)
    (hdrawn : w'.drawn = w.drawn + snaps.length) : storedSince w w' = snaps.reverse := by
  have huuids : w.uuids.block w.drawn (w'.drawn - w.drawn) = snaps.map (·.uuid) := by
    rw [hdrawn, Nat.add_sub_cancel_left]
    exact hsaved.uuids.symm
  have hstore : w'.store = snaps.reverse ++ w.store.filter fun s => s.uuid ∉ snaps.map (·.uuid) :=
    hsaved.store.trans (foldl_save hsaved.uuids_nodup w.store)
  rw [storedSince, huuids, hstore, List.filter_append, List.filter_eq_self.mpr,
    List.filter_eq_nil_iff.mpr, List.append_nil]
  · intro s hs
    simpa using List.of_mem_filter hs
  · intro s hs
    simpa using ⟨s, List.mem_reverse.mp hs, rfl⟩

/-- **A `spawn_array` makes one handle and one snapshot for each task exactly where the entries of
its specification do not overlap.** -/
theorem one_handle_per_task_iff {text : Str} (hspec : SlurmArraySpec.fromStr text = .ok arraySpec)
    {hs : List Nat}
    (hcall : (machine K).call t (spawnArray cmd dirs arraySpec) ms w = some (some (.ok hs), w')) :
    (OneEach arraySpec (hs.map fun h => (w'.watch h).arrayTaskId) ∧
      OneEach arraySpec ((storedSince w w').map (·.arrayTaskId))) ↔ arraySpec.EntriesDisjoint := by
  obtain ⟨jobid, indices, asked, -, hindices, -, hlength, hdrawn, hsaved⟩ :=
    tasksSaved_of_spawnArray hcall
  obtain ⟨indices', hindices', -, hmem, hnodup⟩ :=
    (SlurmArraySpec.wellFormed_of_fromStr hspec).expand
  cases Option.some.inj (hindices.symm.trans hindices')
  have htasks : (hs.map w'.watch).map (·.arrayTaskId) = indices.map some := by
    rw [hsaved.tasks, List.length_map, hlength, List.take_length]
  have hstored : ((storedSince w w').map (·.arrayTaskId)).Perm (indices.map some) := by
    rw [storedSince_eq hsaved (by rw [List.length_map, hdrawn]), ← htasks]
    exact (List.reverse_perm _).map _
  rw [OneEach.perm_iff hstored, ← hnodup, ← oneEach_map_some_iff hmem, ← htasks, List.map_map]
  exact and_self_iff

/-- Two entries with an index each. -/
theorem one_handle_per_task_iff_disjoint : ∃ w',
    (machine Key).call 0 (spawnArray (.new "/w/job.sh") ⟨.error [], .error [], .error []⟩
      ⟨[.single 2, .single 1], none⟩) twoSaved nothingAsked = some (some (.ok [0, 1]), w') ∧
    OneEach ⟨[.single 2, .single 1], none⟩ ([0, 1].map fun h => (w'.watch h).arrayTaskId) := by
  obtain ⟨r, w', hcall, hr⟩ : ∃ r w', (machine Key).call 0
      (spawnArray (.new "/w/job.sh") ⟨.error [], .error [], .error []⟩
        ⟨[.single 2, .single 1], none⟩) twoSaved nothingAsked = some (r, w') ∧
        (r.any fun result => result = .ok [0, 1]) = true :=
    (machine Key).exists_call (by decide +kernel)
  cases eq_some_of_any hr
  have hspec : SlurmArraySpec.fromStr "2,1" = .ok ⟨[.single 2, .single 1], none⟩ := by
    decide +kernel
  refine ⟨w', hcall, ((one_handle_per_task_iff hspec hcall).mpr ?_).1⟩
  simp [SlurmArraySpec.EntriesDisjoint, ArrayIndex.Denotes]

/-- The specification `1,1` is accepted, and its task gets two handles. -/
theorem one_task_two_handles :
    ¬ ∀ text arraySpec cmd dirs t ms (w w' : World Key) hs,
      SlurmArraySpec.fromStr text = .ok arraySpec →
      (machine Key).call t (spawnArray cmd dirs arraySpec) ms w = some (some (.ok hs), w') →
        OneEach arraySpec (hs.map fun h => (w'.watch h).arrayTaskId) ∧
          OneEach arraySpec ((storedSince w w').map (·.arrayTaskId)) := by
  intro hall
  obtain ⟨r, w', hcall, hr, htasks⟩ : ∃ r w', (machine Key).call 0
      (spawnArray (.new "/w/job.sh") ⟨.error [], .error [], .error []⟩
        ⟨[.single 1, .single 1], none⟩) twoSaved nothingAsked = some (r, w') ∧
        (r.any fun result => result = .ok [0, 1]) = true ∧
        ([0, 1].map fun h => (w'.watch h).arrayTaskId) = [some 1, some 1] :=
    (machine Key).exists_call (by decide +kernel)
  cases eq_some_of_any hr
  have hspec : SlurmArraySpec.fromStr "1,1" = .ok ⟨[.single 1, .single 1], none⟩ := by
    decide +kernel
  have hnodup := (hall _ _ _ _ _ _ _ _ _ hspec hcall).1.1
  rw [htasks] at hnodup
  exact absurd hnodup (by decide)

/-! ## 6. A save that fails

The tasks are saved one after another, and the first failure ends the call with the job id in its
error: the job runs, and the tasks before it are in the store. -/

/-- **A `spawn_array` that stops at a save that fails leaves the tasks before it**: the store has
their snapshots, and `attach_array_jobid` finds exactly these. -/
theorem unsaved_array {source : Str}
    (hcall : (machine K).call t (spawnArray cmd dirs arraySpec) ms w =
      some (some (.error (.submittedButUnpersisted jobid source)), w'))
    (hnew : ∀ s ∈ w.store, s.jobid ≠ jobid) {scan : Store → Store}
    (hscan : ∀ s, (scan s).Perm s) {w₁ : World K} (hstore : w₁.store = w'.store) (u : Nat) :
    ∃ indices k, expandArrayIndices arraySpec = some indices ∧ k < indices.length ∧
      w'.saves.length = w.saves.length + k + 1 ∧
      (w'.store.findAllByJobid jobid).reverse.map (·.arrayTaskId) = (indices.take k).map some ∧
      (machine K).Returns u (attachArrayJobid scan jobid) w₁ fun r w₂ => ∃ hs, r = .ok hs ∧
        hs.length = k ∧ (hs.map w₂.watch).Perm (w'.store.findAllByJobid jobid) := by
  have hrun := call_spawnArray hcall
  cases hrun with
  | refused hlost hjobs => cases hlost
  | notSubmitted hsubmit hjobs => cases hsubmit
  | pathFailed hscript hsubmit hpath hjobs =>
    obtain ⟨text, htext⟩ := scriptPath_error hpath
    cases htext
  | looped hscript hindices hne hsubmit hpath hsaved hend =>
    cases hend with
    | @unsaved _ hall hsaves =>
      refine ⟨_, _, hindices, hall, hsaves, ?_, ?_⟩
      · rw [show w'.store.findAllByJobid jobid = _ from hsaved.findAllByJobid hnew,
          List.reverse_reverse, hsaved.tasks]
      · obtain ⟨hreturns, hresult⟩ := hsaved.attachArray (t := u) hnew hscan hstore
        refine ⟨hreturns, ?_⟩
        intro ms r w₂ hattach
        obtain ⟨hs, hr, hperm, -⟩ := hresult ms r w₂ hattach
        refine ⟨hs, hr, ?_, ?_⟩
        · rw [← hperm.length_eq, List.length_map]
        · rw [show w'.store.findAllByJobid jobid = _ from hsaved.findAllByJobid hnew]
          exact hperm.trans (List.reverse_perm _).symm

/-- sbatch prints the job id 7, the first task is saved, and the second save fails. -/
def oneSaved : List (Input ⊕ Tick) :=
  goesOn 1 ++ answers "Submitted batch job 7\n" ++ goesOn 2 ++ storesIt ++ goesOn 3 ++
    storeFails "disk full"

/-- The second save fails, and the first task is stored. -/
theorem unsaved_array_first : ∃ w',
    (machine Key).call 0 (spawnArray (.new "/w/job.sh") ⟨.error [], .error [], .error []⟩
      ⟨[.range 1 2], none⟩) oneSaved nothingAsked =
        some (some (.error (.submittedButUnpersisted 7 "disk full")), w') ∧
    ∃ indices k, expandArrayIndices ⟨[.range 1 2], none⟩ = some indices ∧ k < indices.length ∧
      w'.saves.length = k + 1 ∧
      (w'.store.findAllByJobid 7).reverse.map (·.arrayTaskId) = (indices.take k).map some := by
  obtain ⟨r, w', hcall, hr⟩ : ∃ r w', (machine Key).call 0
      (spawnArray (.new "/w/job.sh") ⟨.error [], .error [], .error []⟩ ⟨[.range 1 2], none⟩)
      oneSaved nothingAsked = some (r, w') ∧
        (r.any fun result => result = .error (.submittedButUnpersisted 7 "disk full")) = true :=
    (machine Key).exists_call (by decide +kernel)
  cases eq_some_of_any hr
  obtain ⟨indices, k, hindices, hk, hsaves, htasks, -⟩ := unsaved_array hcall
    (by intro s hs; cases hs) (fun s => List.Perm.refl (id s)) (rfl : w'.store = w'.store) 0
  refine ⟨w', hcall, indices, k, hindices, hk, ?_, htasks⟩
  have hnone : nothingAsked.saves.length = 0 := rfl
  omega

/-- The first of two tasks stays in the store when the save of the second fails, and the array
attach returns it alone. -/
theorem partial_array :
    (¬ ∀ cmd dirs arraySpec t ms (w w' : World Key) jobid source,
      (machine Key).call t (spawnArray cmd dirs arraySpec) ms w =
        some (some (.error (.submittedButUnpersisted jobid source)), w') →
      (∀ s ∈ w.store, s.jobid ≠ jobid) → w'.store.findAllByJobid jobid = []) ∧
    ¬ ∀ cmd dirs arraySpec t ms (w w' : World Key) jobid source indices ms' r w₂,
      (machine Key).call t (spawnArray cmd dirs arraySpec) ms w =
        some (some (.error (.submittedButUnpersisted jobid source)), w') →
      (∀ s ∈ w.store, s.jobid ≠ jobid) → expandArrayIndices arraySpec = some indices →
      (machine Key).call t (attachArrayJobid id jobid) ms' w' = some (.ok r, w₂) →
        ¬ (0 < r.length ∧ r.length < indices.length) := by
  obtain ⟨r, w', hcall, hr, htasks⟩ : ∃ r w', (machine Key).call 0
      (spawnArray (.new "/w/job.sh") ⟨.error [], .error [], .error []⟩ ⟨[.range 1 2], none⟩)
      oneSaved nothingAsked = some (r, w') ∧
        (r.any fun result => result = .error (.submittedButUnpersisted 7 "disk full")) = true ∧
        (w'.store.findAllByJobid 7).map (·.arrayTaskId) = [some 1] :=
    (machine Key).exists_call (by decide +kernel)
  cases eq_some_of_any hr
  have hnew : ∀ s ∈ nothingAsked.store, s.jobid ≠ 7 := by
    intro s hs
    cases hs
  constructor
  · intro hall
    rw [hall _ _ _ _ _ _ _ _ _ hcall hnew] at htasks
    cases htasks
  · intro hall
    obtain ⟨⟨ms', r, w₂, hattach⟩, hresult⟩ :
        (machine Key).Returns 0 (attachArrayJobid id 7) w' _ :=
      attachArrayJobid_returns fun s => List.Perm.refl s
    obtain ⟨hs, rfl, hperm, -⟩ := hresult ms' r w₂ hattach
    have hindices : expandArrayIndices ⟨[.range 1 2], none⟩ = some [1, 2] := by decide +kernel
    have hone : hs.length = 1 := by
      have hlength := hperm.length_eq
      have htask : ((w'.store.findAllByJobid 7).filter fun s => s.arrayTaskId.isSome) =
          w'.store.findAllByJobid 7 := by
        refine List.filter_eq_self.mpr fun s hs => ?_
        have hmem : s.arrayTaskId ∈ [some 1] := htasks ▸ List.mem_map_of_mem hs
        rw [List.mem_singleton.mp hmem]
        rfl
      rw [htask, List.length_map] at hlength
      rw [hlength, ← List.length_map (f := (·.arrayTaskId)), htasks]
      rfl
    refine hall _ _ _ _ _ _ _ _ _ _ _ _ _ hcall hnew hindices hattach ⟨?_, ?_⟩
    · omega
    · rw [hone]
      decide

end Arrays

end Sbatch

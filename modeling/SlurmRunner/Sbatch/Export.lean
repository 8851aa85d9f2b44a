/-
# The exported environment

`render_export` writes the environment of a job as the value of `--export`.  It refuses a key or a
value with one of its two separators, so that what it writes reads back as the same environment
(`render_export_faithful`).
-/
import SlurmRunner.Sbatch.Cmd
import SlurmRunner.Text.Separated

namespace Sbatch

open Text

/-! ## 1. Reading a list of exports -/

/-- A list of exports without its leading `ALL`, each item split at its first equals sign. -/
def decodeExport (s : Str) : Option (List (Str × Str)) :=
  match splitOnce ',' s with
  | some (head, items) =>
    if head = "ALL" then (items.splitOn ',').mapM (splitOnce '=') else none
  | none => none

/-- Neither separator of the list occurs in `s`. -/
def Exportable (s : Str) : Prop := ',' ∉ s ∧ '=' ∉ s

/-- An entry as it is written. -/
def exportItem (kv : Str × Str) : Str := kv.1 ++ '=' :: kv.2

theorem mapM_splitOnce_exportItem {entries : List (Str × Str)}
    (h : ∀ kv ∈ entries, Exportable kv.1) :
    (entries.map exportItem).mapM (splitOnce '=') = some entries := by
  induction entries with
  | nil => rfl
  | cons kv entries ih =>
    have hkv : splitOnce '=' (exportItem kv) = some kv :=
      splitOnce_append (h kv List.mem_cons_self).2 kv.2
    rw [List.map_cons, List.mapM_cons, hkv, ih fun kv' h' => h kv' (List.mem_cons_of_mem _ h')]
    rfl

/-- **A written list reads back.** -/
theorem decodeExport_items {entries : List (Str × Str)} (hne : entries ≠ [])
    (h : ∀ kv ∈ entries, Exportable kv.1 ∧ Exportable kv.2) :
    decodeExport (("ALL" : Str) ++ entries.flatMap fun kv => ',' :: exportItem kv) =
      some entries := by
  have hcomma : ∀ item ∈ entries.map exportItem, ',' ∉ item := by
    intro item hitem
    obtain ⟨kv, hkv, rfl⟩ := List.mem_map.mp hitem
    obtain ⟨hkey, hvalue⟩ := h kv hkv
    simp [exportItem, hkey.1, hvalue.1]
  have hitems : (List.intercalate [','] (entries.map exportItem)).splitOn ',' =
      entries.map exportItem :=
    List.splitOn_intercalate ',' hcomma (by simpa using hne)
  have hall : ',' ∉ ("ALL" : Str) := by decide
  rw [append_flatMap_eq_intercalate, List.intercalate_cons_of_ne_nil (by simpa using hne),
    List.append_assoc, List.singleton_append, decodeExport, splitOnce_append hall]
  simp only [if_true, hitems]
  exact mapM_splitOnce_exportItem fun kv hkv => (h kv hkv).1

/-! ## 2. What is written -/

/-- A list of exports is written if and only if every entry can be, and holds all of them. -/
theorem renderExport_eq_ok_iff {env : List (Str × Str)} {s : Str} :
    renderExport env = .ok s ↔ (∀ kv ∈ env, Exportable kv.1 ∧ Exportable kv.2) ∧
      s = ("ALL" : Str) ++ (exportEntries env).flatMap fun kv => ',' :: exportItem kv := by
  have hmem : ∀ kv, kv ∈ env ↔ kv ∈ exportEntries env :=
    fun kv => (List.mem_insertionSort _).symm
  simp only [hmem]
  unfold renderExport
  generalize exportEntries env = entries
  generalize ("ALL" : Str) = out
  induction entries generalizing out with
  | nil =>
    rw [List.foldlM_nil]
    simp [pure, Except.pure, eq_comm]
  | cons kv entries ih =>
    rw [List.foldlM_cons, List.forall_mem_cons, List.flatMap_cons]
    by_cases hkey : ',' ∈ kv.1 ∨ '=' ∈ kv.1
    · rw [if_pos hkey]
      have hnot : ¬ Exportable kv.1 := fun h => hkey.elim h.1 h.2
      simp [hnot, bind, Except.bind]
    · rw [if_neg hkey]
      by_cases hvalue : ',' ∈ kv.2 ∨ '=' ∈ kv.2
      · rw [if_pos hvalue]
        have hnot : ¬ Exportable kv.2 := fun h => hvalue.elim h.1 h.2
        simp [hnot, bind, Except.bind]
      · rw [if_neg hvalue]
        have hkv : Exportable kv.1 ∧ Exportable kv.2 := ⟨not_or.mp hkey, not_or.mp hvalue⟩
        refine (ih _).trans ?_
        simp [hkv, exportItem]

/-- The entries in the order of their keys are those of the environment. -/
theorem perm_exportEntries (env : List (Str × Str)) : (exportEntries env).Perm env :=
  List.perm_insertionSort _ env

theorem pairwise_exportEntries (env : List (Str × Str)) :
    (exportEntries env).Pairwise fun a b => a.1 ≤ b.1 := by
  have htotal : Std.Total fun a b : Str × Str => a.1 ≤ b.1 := ⟨fun a b => le_total a.1 b.1⟩
  have htrans : IsTrans (Str × Str) fun a b => a.1 ≤ b.1 := ⟨fun _ _ _ => le_trans⟩
  exact List.pairwise_insertionSort _ env

/-- A key has one entry. -/
theorem eq_of_key {env : List (Str × Str)} (h : (env.map Prod.fst).Nodup) {a b : Str × Str}
    (ha : a ∈ env) (hb : b ∈ env) (hkey : a.1 = b.1) : a = b :=
  List.inj_on_of_nodup_map h ha hb hkey

/-- The keys of a map are written in strictly ascending order. -/
theorem sorted_exportEntries {env : List (Str × Str)} (h : (env.map Prod.fst).Nodup) :
    ((exportEntries env).map Prod.fst).Pairwise (· < ·) := by
  have hnodup : ((exportEntries env).map Prod.fst).Nodup :=
    ((perm_exportEntries env).map Prod.fst).nodup_iff.mpr h
  have hsorted : ((exportEntries env).map Prod.fst).Pairwise (· ≤ ·) :=
    List.pairwise_map.mpr (pairwise_exportEntries env)
  exact (hsorted.and hnodup).imp fun hab => lt_of_le_of_ne hab.1 hab.2

/-- The order in which a map lists its entries does not matter. -/
theorem exportEntries_perm {env env' : List (Str × Str)} (h : (env.map Prod.fst).Nodup)
    (hperm : env'.Perm env) : exportEntries env' = exportEntries env := by
  have hperm' : (exportEntries env').Perm (exportEntries env) :=
    (perm_exportEntries env').trans (hperm.trans (perm_exportEntries env).symm)
  refine hperm'.eq_of_pairwise ?_ (pairwise_exportEntries env') (pairwise_exportEntries env)
  intro a b ha hb hab hba
  have ha' := hperm.subset ((perm_exportEntries env').subset ha)
  have hb' := (perm_exportEntries env).subset hb
  exact eq_of_key h ha' hb' (le_antisymm hab hba)

/-- **The list of exports is a faithful form of the environment**: it is written exactly where no
key and no value has a separator, whatever the order of the map, and it reads back as the map with
its keys in ascending order. -/
theorem render_export_faithful {env : List (Str × Str)} (h : (env.map Prod.fst).Nodup) :
    ((∃ s, renderExport env = .ok s) ↔
        ∀ kv ∈ env, (',' ∉ kv.1 ∧ '=' ∉ kv.1) ∧ ',' ∉ kv.2 ∧ '=' ∉ kv.2) ∧
      (∀ env', env'.Perm env → renderExport env' = renderExport env) ∧
      ∀ s, env ≠ [] → renderExport env = .ok s →
        ∃ entries, decodeExport s = some entries ∧ entries.Perm env ∧
          (entries.map Prod.fst).Pairwise (· < ·) := by
  refine ⟨?_, ?_, ?_⟩
  · constructor
    · rintro ⟨s, hs⟩
      exact (renderExport_eq_ok_iff.mp hs).1
    · intro hall
      exact ⟨_, renderExport_eq_ok_iff.mpr ⟨hall, rfl⟩⟩
  · intro env' hperm
    rw [renderExport, renderExport, exportEntries_perm h hperm]
  · intro s hne hs
    obtain ⟨hall, rfl⟩ := renderExport_eq_ok_iff.mp hs
    have hperm := perm_exportEntries env
    have hne' : exportEntries env ≠ [] := fun hnil => hne (hnil ▸ hperm).nil_eq.symm
    refine ⟨exportEntries env, ?_, hperm, sorted_exportEntries h⟩
    exact decodeExport_items hne' fun kv hkv => hall kv (hperm.subset hkv)

/-- An empty value and a key that looks like the leading item are read back. -/
theorem render_export_all_key :
    ∃ entries, decodeExport "ALL,ALL=1,B=" = some entries ∧
      entries.Perm [("B", ""), ("ALL", "1")] ∧ (entries.map Prod.fst).Pairwise (· < ·) := by
  have hkeys : (([("B", ""), ("ALL", "1")] : List (Str × Str)).map Prod.fst).Nodup := by
    decide +kernel
  exact (render_export_faithful hkeys).2.2 _ (by simp) (by decide +kernel)

end Sbatch

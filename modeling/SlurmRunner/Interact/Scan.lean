/-
# Scans of what changes meanwhile

A scan of a collection tells its keys one after another, and other tasks change the collection
between two of them, as they may change a directory that is being read.  What can still be relied on
is this: a key that was there when the scan was opened, and that nobody has touched since, is told
exactly once before the end (`Scan.Over.count_told`).  A key that was added, replaced or removed
since may be told or not, and more than once; no other key is told (`Scan.known`).

`Scanned` is a collection together with the scans of it that the tasks have opened.  `Scan.Shows`
compares the scans of two collections of which one shows a part of the other.
-/
import Mathlib.Data.List.Forall2
import Mathlib.Logic.Function.Basic

namespace Interact

/-! ## 1. One scan

The three lists say all that matters of a scan: what was there when it was opened, what was touched
since, and what it has told.  The two fields with proofs are the promise of a directory scan, and
`MayTell` and `Over` say what a step of it may do without breaking them. -/

/-- A scan of a collection with keys of `K`. -/
structure Scan (K : Type) [DecidableEq K] where
  /-- The keys when it was opened. -/
  opened : List K
  /-- The keys that were added, replaced or removed since. -/
  touched : List K
  /-- The keys that it has told, the last one first. -/
  told : List K
  known : ∀ k ∈ told, k ∈ opened ∨ k ∈ touched
  once : ∀ k, k ∉ touched → told.count k ≤ 1

variable {K K' W W' : Type} [DecidableEq K] [DecidableEq K']

namespace Scan

/-- A new scan. -/
def opens (keys : List K) : Scan K := ⟨keys, [], [], by simp, by simp⟩

/-- These keys are touched. -/
def touch (keys : List K) (sc : Scan K) : Scan K where
  opened := sc.opened
  touched := keys ++ sc.touched
  told := sc.told
  known k hk := (sc.known k hk).imp_right (List.mem_append_right keys)
  once k hk := sc.once k fun h => hk (List.mem_append_right keys h)

/-- The key can be told next. -/
def MayTell (sc : Scan K) (k : K) : Prop := k ∈ sc.opened ∧ k ∉ sc.told ∨ k ∈ sc.touched

instance (sc : Scan K) (k : K) : Decidable (sc.MayTell k) := inferInstanceAs (Decidable (_ ∨ _))

/-- The scan tells the key, which it may tell. -/
def tell (sc : Scan K) (k : K) (h : sc.MayTell k) : Scan K where
  opened := sc.opened
  touched := sc.touched
  told := k :: sc.told
  known k' hk' := by
    rcases List.mem_cons.mp hk' with rfl | hk'
    · exact h.imp_left And.left
    · exact sc.known k' hk'
  once k' hk' := by
    rw [List.count_cons]
    split_ifs with heq
    · obtain rfl : k = k' := by simpa using heq
      have hnew : k ∉ sc.told := (h.resolve_right hk').2
      exact Nat.le_of_eq (congrArg (· + 1) (List.count_eq_zero_of_not_mem hnew))
    · exact sc.once k' hk'

/-- The scan can end: it has told all it had to. -/
def Over (sc : Scan K) : Prop := ∀ k ∈ sc.opened, k ∈ sc.told ∨ k ∈ sc.touched

instance (sc : Scan K) : Decidable sc.Over :=
  inferInstanceAs (Decidable (∀ k ∈ sc.opened, k ∈ sc.told ∨ k ∈ sc.touched))

/-- **What nobody has touched is told exactly once.** -/
theorem Over.count_told {sc : Scan K} (h : sc.Over) {k : K} (hopened : k ∈ sc.opened)
    (htouched : k ∉ sc.touched) : sc.told.count k = 1 := by
  have htold : k ∈ sc.told := (h k hopened).resolve_right htouched
  have hpos : 0 < sc.told.count k := List.count_pos_iff.mpr htold
  have hle := sc.once k htouched
  omega

/-- A scan of an empty collection is over at once. -/
theorem opens_over : (opens ([] : List K)).Over := fun k hk => by cases hk

/-- The scan at a later moment, if it has told nothing since. -/
structure Later (sc sc' : Scan K) : Prop where
  opened : sc'.opened = sc.opened
  told : sc'.told = sc.told
  touched : sc.touched ⊆ sc'.touched

namespace Later

variable {sc sc' sc'' : Scan K}

/-- It has told nothing since. -/
theorem refl (sc : Scan K) : sc.Later sc := ⟨rfl, rfl, fun _ h => h⟩

/-- Two intervals in which it has told nothing. -/
theorem trans (h : sc.Later sc') (h' : sc'.Later sc'') : sc.Later sc'' :=
  ⟨h'.opened.trans h.opened, h'.told.trans h.told, fun _ hk => h'.touched (h.touched hk)⟩

end Later

/-- While keys are touched, it tells nothing. -/
theorem later_touch (keys : List K) (sc : Scan K) : sc.Later (sc.touch keys) :=
  ⟨rfl, rfl, fun _ h => List.mem_append_right keys h⟩

/-- These keys come from one scan, in the order in which it has told them, and it has told exactly
once what was there when it was opened and was not touched since. -/
def Gives (own : List (Scan K)) (keys : List K) : Prop :=
  ∃ sc, own = [sc] ∧ (∀ k ∈ sc.opened, k ∉ sc.touched → sc.told.count k = 1) ∧
    keys.Sublist sc.told.reverse

/-- A scan that is over has told each key that was not touched exactly once. -/
theorem Over.gives {sc : Scan K} {keys : List K} (h : sc.Over)
    (hkeys : keys.Sublist sc.told.reverse) : Gives [sc] keys :=
  ⟨sc, rfl, fun _ => h.count_told, hkeys⟩

/-- Some of the keys, in the same order. -/
theorem Gives.sublist {own : List (Scan K)} {keys keys' : List K} (h : Gives own keys)
    (hsub : keys'.Sublist keys) : Gives own keys' := by
  obtain ⟨sc, hown, honce, hkeys⟩ := h
  exact ⟨sc, hown, honce, hsub.trans hkeys⟩

/-- What is touched after the scan has ended takes nothing back. -/
theorem Gives.later {own own' : List (Scan K)} {keys : List K} (h : Gives own keys)
    (hlater : List.Forall₂ Later own own') : Gives own' keys := by
  obtain ⟨sc, rfl, honce, hkeys⟩ := h
  obtain ⟨sc', _, hsc, hnil, rfl⟩ := List.forall₂_cons_left_iff.mp hlater
  cases hnil
  refine ⟨sc', rfl, fun k hk htouched => ?_, hsc.told ▸ hkeys⟩
  rw [hsc.told]
  exact honce k (hsc.opened ▸ hk) fun h => htouched (hsc.touched h)

/-! ## 2. A part of what is scanned

A directory also has files that are no snapshots, and the store that it stands for has none of
these.  `Shows` compares the scans of both: the names of the keys are translated by `f`, and `p`
holds of the names that stand for a key. -/

section Part

variable {A A' : Type} {p : A → Prop} [DecidablePred p] {f : A' → A} {l : List A} {l' : List A'}

/-- A list and the part of it that is shown, by other names. -/
theorem mem_of_filter {a : A} (h : l.filter p = l'.map f) (hp : p a) (ha : a ∈ l) :
    ∃ a' ∈ l', f a' = a :=
  List.mem_map.mp (h ▸ List.mem_filter.mpr ⟨ha, by simpa using hp⟩)

/-- A key is in the part exactly if its name is in the whole. -/
theorem mem_filter_iff {a' : A'} (hf : Function.Injective f) (hpf : ∀ a', p (f a'))
    (h : l.filter p = l'.map f) : f a' ∈ l ↔ a' ∈ l' := by
  rw [← List.mem_map_of_injective hf, ← h, List.mem_filter]
  simp [hpf a']

end Part

section Shows

variable (p : K → Prop) [DecidablePred p] (f : K' → K)

/-- The scan `sc'` shows of `sc` the keys for which `p` holds, by the names that `f` undoes. -/
structure Shows (sc : Scan K) (sc' : Scan K') : Prop where
  opened : sc.opened.filter p = sc'.opened.map f
  touched : sc.touched.filter p = sc'.touched.map f
  told : sc.told.filter p = sc'.told.map f

variable {p f} {sc : Scan K} {sc' : Scan K'} {keys : List K} {keys' : List K'} {k : K}

/-- Two scans that are opened at the same time. -/
theorem shows_opens (h : keys.filter p = keys'.map f) : (opens keys).Shows p f (opens keys') :=
  ⟨h, rfl, rfl⟩

namespace Shows

/-- The same keys are touched, by their names. -/
theorem touch (h : sc.Shows p f sc') (hkeys : keys.filter p = keys'.map f) :
    (sc.touch keys).Shows p f (sc'.touch keys') := by
  refine ⟨h.opened, ?_, h.told⟩
  rw [Scan.touch, Scan.touch, List.filter_append, List.map_append, hkeys, h.touched]

/-- Names that stand for no key are touched below and nothing above. -/
theorem touch_hidden (h : sc.Shows p f sc') (hkeys : keys.filter p = []) :
    (sc.touch keys).Shows p f sc' := by
  refine ⟨h.opened, ?_, h.told⟩
  rw [Scan.touch, List.filter_append, hkeys, List.nil_append, h.touched]

/-- A key that is told and shown is told by the other scan. -/
theorem mayTell (h : sc.Shows p f sc') (hf : Function.Injective f) (hpf : ∀ k', p (f k'))
    (hmay : sc.MayTell k) (hp : p k) : ∃ k', f k' = k ∧ sc'.MayTell k' := by
  rcases hmay with ⟨hopened, htold⟩ | htouched
  · obtain ⟨k', hk', rfl⟩ := mem_of_filter h.opened hp hopened
    exact ⟨k', rfl, .inl ⟨hk', fun ht => htold ((mem_filter_iff hf hpf h.told).mpr ht)⟩⟩
  · obtain ⟨k', hk', rfl⟩ := mem_of_filter h.touched hp htouched
    exact ⟨k', rfl, .inr hk'⟩

/-- A key is told above when its name is told below. -/
theorem tell {k' : K'} (h : sc.Shows p f sc') (hpf : p (f k')) (hmay : sc.MayTell (f k'))
    (hmay' : sc'.MayTell k') : (sc.tell (f k') hmay).Shows p f (sc'.tell k' hmay') := by
  refine ⟨h.opened, h.touched, ?_⟩
  rw [Scan.tell, Scan.tell, List.filter_cons_of_pos (by simpa using hpf), h.told, List.map_cons]

/-- What is not shown is told unseen. -/
theorem tell_hidden (h : sc.Shows p f sc') (hp : ¬ p k) (hmay : sc.MayTell k) :
    (sc.tell k hmay).Shows p f sc' := by
  refine ⟨h.opened, h.touched, ?_⟩
  rw [Scan.tell, List.filter_cons_of_neg (by simpa using hp), h.told]

/-- Where the lower scan has told all it had to, so has the upper one. -/
theorem toEnd (h : sc.Shows p f sc') (hf : Function.Injective f) (hpf : ∀ k', p (f k'))
    (hover : sc.Over) : sc'.Over := by
  intro k' hk'
  exact (hover (f k') ((mem_filter_iff hf hpf h.opened).mpr hk')).imp
    (mem_filter_iff hf hpf h.told).mp (mem_filter_iff hf hpf h.touched).mp

end Shows

end Shows

end Scan

/-! ## 3. A collection and its scans

Every task scans for itself, and has all its scans at hand, the last one first.  A change of the
collection touches keys in all scans that were opened, those of the task that makes it included. -/

/-- What is scanned, and the scans that each task has opened, the last one first. -/
structure Scanned (W K : Type) [DecidableEq K] where
  here : W
  scans : Nat → List (Scan K)

namespace Scanned

/-- Nobody has scanned it yet. -/
def start (w : W) : Scanned W K := ⟨w, fun _ => []⟩

/-- A change, which touches these keys. -/
def change (x : Scanned W K) (w : W) (keys : List K) : Scanned W K :=
  ⟨w, fun t => (x.scans t).map (Scan.touch keys)⟩

/-- Task `t` opens a scan. -/
def opens (x : Scanned W K) (t : Nat) (keys : List K) : Scanned W K :=
  ⟨x.here, Function.update x.scans t (.opens keys :: x.scans t)⟩

/-- The last scan of task `t` tells this key. -/
def tells (x : Scanned W K) (t : Nat) (k : K) : Option (Scanned W K) :=
  match x.scans t with
  | [] => none
  | sc :: earlier =>
    if h : sc.MayTell k then some ⟨x.here, Function.update x.scans t (sc.tell k h :: earlier)⟩
    else none

/-- The last scan of task `t` can end. -/
def Over (x : Scanned W K) (t : Nat) : Prop :=
  match x.scans t with
  | [] => False
  | sc :: _ => sc.Over

instance (x : Scanned W K) (t : Nat) : Decidable (x.Over t) := by
  unfold Over
  split <;> infer_instance

/-- The scan that goes on is the last one that the task has opened. -/
theorem tells_cases {x y : Scanned W K} {t : Nat} {k : K} (h : x.tells t k = some y) :
    ∃ sc earlier, ∃ hmay : sc.MayTell k, x.scans t = sc :: earlier ∧
      y = ⟨x.here, Function.update x.scans t (sc.tell k hmay :: earlier)⟩ := by
  unfold tells at h
  split at h
  · cases h
  · rename_i sc earlier hsc
    split at h
    · rename_i hmay
      cases h
      exact ⟨sc, earlier, hmay, hsc, rfl⟩
    · cases h

/-- A key that may be told can be told. -/
theorem tells_eq {x : Scanned W K} {t : Nat} {k : K} {sc : Scan K} {earlier : List (Scan K)}
    (hsc : x.scans t = sc :: earlier) (hmay : sc.MayTell k) :
    x.tells t k = some ⟨x.here, Function.update x.scans t (sc.tell k hmay :: earlier)⟩ := by
  simp only [tells, hsc, dif_pos hmay]

/-- A scan changes nothing. -/
theorem here_of_tells {x y : Scanned W K} {t : Nat} {k : K} (h : x.tells t k = some y) :
    y.here = x.here := by
  obtain ⟨sc, earlier, hmay, -, rfl⟩ := tells_cases h
  rfl

/-- A task has come to the end of its last scan. -/
theorem over_iff {x : Scanned W K} {t : Nat} :
    x.Over t ↔ ∃ sc earlier, x.scans t = sc :: earlier ∧ sc.Over := by
  unfold Over
  cases x.scans t <;> simp

section Later

variable {x y z : Scanned W K} {w : W} {t u : Nat} {k : K}

/-- The scans of task `t`, at a later moment. -/
def Later (t : Nat) (x y : Scanned W K) : Prop :=
  List.Forall₂ Scan.Later (x.scans t) (y.scans t)

/-- The scans of a task, compared one by one. -/
theorem forall₂_later_refl (scs : List (Scan K)) : List.Forall₂ Scan.Later scs scs :=
  List.forall₂_same.mpr fun sc _ => .refl sc

/-- What holds of one scan holds of a list of them. -/
theorem forall₂_later_trans {scs scs' scs'' : List (Scan K)}
    (h : List.Forall₂ Scan.Later scs scs') (h' : List.Forall₂ Scan.Later scs' scs'') :
    List.Forall₂ Scan.Later scs scs'' := by
  induction h generalizing scs'' with
  | nil => exact h'
  | cons hsc _ ih =>
    obtain ⟨sc'', rest, hsc', hrest, rfl⟩ := List.forall₂_cons_left_iff.mp h'
    exact .cons (hsc.trans hsc') (ih hrest)

/-- The scans of the calls before and those of this call are compared apart. -/
theorem forall₂_later_append {own rest scs : List (Scan K)}
    (h : List.Forall₂ Scan.Later (own ++ rest) scs) : ∃ own' rest', scs = own' ++ rest' ∧
      List.Forall₂ Scan.Later own own' ∧ List.Forall₂ Scan.Later rest rest' := by
  have hown := List.forall₂_take own.length h
  have hrest := List.forall₂_drop own.length h
  rw [List.take_left] at hown
  rw [List.drop_left] at hrest
  exact ⟨_, _, (List.take_append_drop own.length scs).symm, hown, hrest⟩

/-- A change of the collection tells nothing. -/
theorem later_change (keys : List K) : x.Later t (x.change w keys) :=
  List.forall₂_map_right_iff.mpr (List.forall₂_same.mpr fun sc _ => Scan.later_touch keys sc)

/-- What another task does with its own scans. -/
theorem later_update {scs : List (Scan K)} (hu : u ≠ t) :
    x.Later u ⟨w, Function.update x.scans t scs⟩ := by
  change List.Forall₂ Scan.Later (x.scans u) (Function.update x.scans t scs u)
  rw [Function.update_of_ne hu]
  exact forall₂_later_refl _

/-- The scan of another task goes on. -/
theorem later_tells (h : x.tells t k = some y) (hu : u ≠ t) : x.Later u y := by
  obtain ⟨sc, earlier, hmay, -, rfl⟩ := tells_cases h
  exact later_update hu

/-- The last scan of task `t` has told `more`, the last one first. -/
def ToldOn (t : Nat) (x y : Scanned W K) (more : List K) : Prop :=
  ∃ sc earlier sc' earlier', x.scans t = sc :: earlier ∧ y.scans t = sc' :: earlier' ∧
    sc'.told = more ++ sc.told ∧ List.Forall₂ Scan.Later earlier earlier'

namespace ToldOn

variable {more more' : List K}

/-- The others have been at work. -/
theorem of_later (h : x.Later t y) (hx : x.scans t ≠ []) : ToldOn t x y [] := by
  obtain ⟨sc, earlier, hsc⟩ := List.exists_cons_of_ne_nil hx
  unfold Later at h
  rw [hsc] at h
  obtain ⟨sc', earlier', hlater, hearlier, hsc'⟩ := List.forall₂_cons_left_iff.mp h
  exact ⟨sc, earlier, sc', earlier', hsc, hsc', hlater.told, hearlier⟩

/-- A key was told. -/
theorem of_tells (h : x.tells t k = some y) : ToldOn t x y [k] := by
  obtain ⟨sc, earlier, hmay, hsc, rfl⟩ := tells_cases h
  exact ⟨sc, earlier, sc.tell k hmay, earlier, hsc, Function.update_self .., rfl,
    forall₂_later_refl _⟩

/-- One step after another: what was told comes first in the list. -/
theorem trans (h : ToldOn t x y more) (h' : ToldOn t y z more') :
    ToldOn t x z (more' ++ more) := by
  obtain ⟨sc, earlier, sc₁, earlier₁, hx, hy, htold, hearlier⟩ := h
  obtain ⟨sc₂, earlier₂, sc', earlier', hy', hz, htold', hearlier'⟩ := h'
  cases hy.symm.trans hy'
  refine ⟨sc, earlier, sc', earlier', hx, hz, ?_, forall₂_later_trans hearlier hearlier'⟩
  rw [htold', htold, List.append_assoc]

/-- The task still has its scan. -/
theorem ne_nil (h : ToldOn t x y more) : y.scans t ≠ [] := by
  obtain ⟨sc, earlier, sc', earlier', -, hy, -, -⟩ := h
  rw [hy]
  exact List.cons_ne_nil _ _

end ToldOn

end Later

section Shows

variable (p : K → Prop) [DecidablePred p] (f : K' → K)

/-- Each scan of `x'` shows a part of the scan of `x` that its task has opened at the same time. -/
def Shows (x : Scanned W K) (x' : Scanned W' K') : Prop :=
  ∀ t, List.Forall₂ (Scan.Shows p f) (x.scans t) (x'.scans t)

variable {p f} {x y : Scanned W K} {x' : Scanned W' K'} {w : W} {w' : W'} {t : Nat} {k : K}
  {keys : List K} {keys' : List K'}

/-- In the beginning there is no scan. -/
theorem shows_start : (start w : Scanned W K).Shows p f (start w' : Scanned W' K') :=
  fun _ => .nil

namespace Shows

/-- Both collections change, by keys and names that correspond. -/
theorem change (h : x.Shows p f x') (hkeys : keys.filter p = keys'.map f) :
    (x.change w keys).Shows p f (x'.change w' keys') := by
  intro t
  refine List.forall₂_map_left_iff.mpr (List.forall₂_map_right_iff.mpr ?_)
  exact (h t).imp fun _ _ hshows => hshows.touch hkeys

/-- A change that does not show. -/
theorem change_hidden (h : x.Shows p f x') (hkeys : keys.filter p = []) :
    (x.change w keys).Shows p f x' := by
  intro t
  refine List.forall₂_map_left_iff.mpr ((h t).imp fun _ _ hshows => ?_)
  exact hshows.touch_hidden hkeys

/-- The scans of one task are others. -/
theorem update {scs : List (Scan K)} {scs' : List (Scan K')} (h : x.Shows p f x')
    (hscs : List.Forall₂ (Scan.Shows p f) scs scs') :
    (⟨w, Function.update x.scans t scs⟩ : Scanned W K).Shows p f
      (⟨w', Function.update x'.scans t scs'⟩ : Scanned W' K') := by
  intro u
  by_cases hu : u = t
  · subst hu
    simpa only [Function.update_self] using hscs
  · simpa only [Function.update_of_ne hu] using h u

/-- The same task opens a scan of both. -/
theorem opens (h : x.Shows p f x') (hkeys : keys.filter p = keys'.map f) :
    (x.opens t keys).Shows p f (x'.opens t keys') :=
  h.update (.cons (Scan.shows_opens hkeys) (h t))

/-- The scans that were opened last, and those before them. -/
theorem cons (h : x.Shows p f x') {sc : Scan K} {earlier : List (Scan K)}
    (hsc : x.scans t = sc :: earlier) : ∃ sc' earlier', x'.scans t = sc' :: earlier' ∧
      sc.Shows p f sc' ∧ List.Forall₂ (Scan.Shows p f) earlier earlier' := by
  have hscans := h t
  rw [hsc] at hscans
  obtain ⟨sc', earlier', hshows, hearlier, heq⟩ := List.forall₂_cons_left_iff.mp hscans
  exact ⟨sc', earlier', heq, hshows, hearlier⟩

/-- What one scan tells and shows, the other one tells. -/
theorem tells (h : x.Shows p f x') (hf : Function.Injective f) (hpf : ∀ k', p (f k'))
    (ht : x.tells t k = some y) (hp : p k) :
    ∃ k' y', f k' = k ∧ x'.tells t k' = some y' ∧ y.Shows p f y' := by
  obtain ⟨sc, earlier, hmay, hsc, rfl⟩ := tells_cases ht
  obtain ⟨sc', earlier', hsc', hshows, hearlier⟩ := h.cons hsc
  obtain ⟨k', rfl, hmay'⟩ := hshows.mayTell hf hpf hmay hp
  exact ⟨k', _, rfl, tells_eq hsc' hmay', h.update (.cons (hshows.tell hp hmay hmay') hearlier)⟩

/-- What it tells and does not show, the other one does not see. -/
theorem tells_hidden (h : x.Shows p f x') (ht : x.tells t k = some y) (hp : ¬ p k) :
    y.Shows p f x' := by
  obtain ⟨sc, earlier, hmay, hsc, rfl⟩ := tells_cases ht
  obtain ⟨sc', earlier', hsc', hshows, hearlier⟩ := h.cons hsc
  have hupdate : (⟨x.here, Function.update x.scans t (sc.tell k hmay :: earlier)⟩ :
      Scanned W K).Shows p f ⟨x'.here, Function.update x'.scans t (sc' :: earlier')⟩ :=
    h.update (.cons (hshows.tell_hidden hp hmay) hearlier)
  rwa [← hsc', Function.update_eq_self] at hupdate

/-- A task that has come to the end below has come to the end above. -/
theorem toEnd (h : x.Shows p f x') (hf : Function.Injective f) (hpf : ∀ k', p (f k'))
    (hover : x.Over t) : x'.Over t := by
  obtain ⟨sc, earlier, hsc, hover⟩ := over_iff.mp hover
  obtain ⟨sc', earlier', hsc', hshows, -⟩ := h.cons hsc
  exact over_iff.mpr ⟨sc', earlier', hsc', hshows.toEnd hf hpf hover⟩

end Shows

end Shows

end Scanned

end Interact

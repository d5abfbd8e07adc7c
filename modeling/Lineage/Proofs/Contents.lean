import Lineage.Table

/-!
# Other contents

A dictionary or a table in which every value has been changed. Keys, and all that a table decides by
its keys, stay as they are.
-/

namespace Lineage

/-! ### Dictionaries -/

namespace Dict

variable {κ α β : Type}

def map (f : α → β) (d : Dict κ α) : Dict κ β := ⟨d.entries.map fun entry => (entry.1, f entry.2)⟩

variable [DecidableEq κ] (f : α → β) (d : Dict κ α) (key : κ)

theorem get?_map : (d.map f).get? key = (d.get? key).map f := by
  obtain ⟨entries⟩ := d
  induction entries with
  | nil => rfl
  | cons entry rest ih =>
    rw [map] at ih ⊢
    rw [List.map_cons, get?_cons, get?_cons, ih]
    split <;> rfl

theorem getD_map (fallback : α) : (d.map f).getD key (f fallback) = f (d.getD key fallback) := by
  rw [getD, getD, get?_map, Option.getD_map]

theorem map_set (value : α) : (d.set key value).map f = (d.map f).set key (f value) := by
  have bound : (d.map f).contains key = d.contains key := by
    rw [contains, contains, get?_map, Option.isSome_map]
  rw [set, set, bound]
  split
  · rw [map, map, Dict.mk.injEq]
    dsimp only
    induction d.entries with
    | nil => rfl
    | cons entry rest ih =>
      obtain ⟨k, v⟩ := entry
      simp only [rebind, List.map_cons]
      split
      · rfl
      · rw [List.map_cons, ih]
  · rfl

omit [DecidableEq κ] in
theorem values_map : (d.map f).values = d.values.map f := by
  rw [values, values, map, List.map_map, List.map_map]
  rfl

omit [DecidableEq κ] in
theorem filterKeys_map (keep : κ → Bool) :
    (d.map f).filterKeys keep = (d.filterKeys keep).map f := by
  rw [filterKeys, filterKeys, map, map, List.filter_map]
  rfl

theorem erase_map : (d.map f).erase key = (d.erase key).map f := filterKeys_map ..

omit [DecidableEq κ] in
theorem size_map : (d.map f).size = d.size := List.length_map _

omit [DecidableEq κ] in
theorem keys_map : (d.map f).keys = d.keys := List.map_map

omit [DecidableEq κ] in
theorem map_congr {f g : α → β} {d : Dict κ α} (same : ∀ a ∈ d.values, f a = g a) :
    d.map f = d.map g := by
  refine congrArg Dict.mk (List.map_congr_left fun entry mem => ?_)
  rw [same entry.2 (List.mem_map_of_mem mem)]

omit [DecidableEq κ] in
theorem map_id {f : α → α} (fixed : ∀ a, f a = a) (d : Dict κ α) : d.map f = d := by
  obtain rfl : f = id := funext fixed
  exact congrArg Dict.mk (List.map_id _)

end Dict

/-! ### Tables -/

/-- The entry with another content. -/
def Entry.map {E F : Type} (f : E → F) (entry : Entry E) : Entry F where
  instanceNumber := entry.instanceNumber
  poisoned := entry.poisoned
  content := f entry.content

namespace Table

variable {κ E : Type} (f : E → E) (t : Table κ E)

/-- The table with other contents. -/
def map : Table κ E := { t with bindings := t.bindings.map (Entry.map f) }

theorem contents_map : (t.map f).contents = t.contents.map f := by
  rw [contents, contents, map, Dict.values_map, List.map_map, List.map_map]
  rfl

theorem map_congr {f g : E → E} {t : Table κ E} (same : ∀ c ∈ t.contents, f c = g c) :
    t.map f = t.map g := by
  unfold map
  rw [Dict.map_congr fun entry mem => ?_]
  exact congrArg (Entry.mk _ _) (same _ (List.mem_map_of_mem mem))

theorem map_id {f : E → E} (fixed : ∀ c, f c = c) (t : Table κ E) : t.map f = t := by
  have same : ∀ entry : Entry E, entry.map f = entry := fun entry =>
    congrArg (Entry.mk _ _) (fixed _)
  unfold map
  rw [Dict.map_id same]

/-- The same keys are found alive when `f` has changed the contents, and the entries are gone over in
    the same order. -/
structure SweptAlike {σ : Type} (sweeping sweeping' : Sweeping σ κ E) : Prop where
  census : ∀ t : Table κ E, sweeping'.census (t.map f) = sweeping.census t
  alive : sweeping'.alive = sweeping.alive
  order : sweeping'.order = sweeping.order

variable [DecidableEq κ] (key : κ)

theorem find?_map : (t.map f).find? key = (t.find? key).map (Entry.map f) := Dict.get?_map _ _ _

theorem remove_map : (t.map f).remove key = ((t.remove key).1, (t.remove key).2.map f) := by
  unfold remove
  rw [find?_map, Option.isSome_map]
  dsimp only [map]
  rw [Dict.erase_map]

section

variable {f} {σ : Type} {sweeping sweeping' : Sweeping σ κ E} (alike : SweptAlike f sweeping sweeping')

include alike

theorem visitAll_map (found : σ) (keys : List κ) :
    visitAll sweeping' (t.map f) found keys = (visitAll sweeping t found keys).map f := by
  induction keys generalizing t found with
  | nil => rfl
  | cons key rest ih =>
    rw [visitAll, visitAll, alike.alive, remove_map]
    split
    · exact ih t found
    · dsimp only
      rw [alike.census]
      exact ih _ _

theorem sweep_map : (t.map f).sweep sweeping' =
    ((t.sweep sweeping).1, (t.sweep sweeping).2.map f) := by
  have keys : (t.map f).bindings.keys = t.bindings.keys := Dict.keys_map ..
  unfold sweep
  rw [keys, alike.order, alike.census, visitAll_map t alike]
  dsimp only [map]
  rw [Dict.size_map, Dict.size_map]

theorem beforeInsert_map : (t.map f).beforeInsert sweeping' =
    ((t.beforeInsert sweeping).1, (t.beforeInsert sweeping).2.map f) := by
  have swept := sweep_map { t with inserts := t.inserts + 1 } alike
  change (if 0 < t.interval ∧ t.interval ≤ t.inserts + 1 then
    (map f { t with inserts := t.inserts + 1 }).sweep sweeping' else _) = _
  rw [swept, beforeInsert]
  dsimp only
  split <;> rfl

theorem insert_map {content content' : E} (same : f content = content') :
    (t.map f).insert sweeping' key content' = ((t.insert sweeping key content).1,
      (t.insert sweeping key content).2.1.map f, (t.insert sweeping key content).2.2.map f) := by
  subst same
  unfold insert
  rw [beforeInsert_map t alike]
  dsimp only [map]
  rw [Dict.map_set]
  rfl

theorem findOrInsert_map {content content' : E} (same : f content = content') :
    (t.map f).findOrInsert sweeping' key content' = ((t.findOrInsert sweeping key content).1,
      (t.findOrInsert sweeping key content).2.1.map f,
      (t.findOrInsert sweeping key content).2.2.map f) := by
  unfold findOrInsert
  rw [find?_map]
  cases t.find? key with
  | some entry => rfl
  | none => exact insert_map t key alike same

end

theorem modify_map (content : E) :
    (t.map f).modify key (fun entry => { entry with content := f content }) =
      (t.modify key fun entry => { entry with content }).map f := by
  unfold modify
  rw [find?_map]
  cases t.find? key with
  | none => rfl
  | some entry =>
    dsimp only [Option.map, map]
    rw [Dict.map_set]
    rfl

end Table

end Lineage

import Mathlib.Data.Set.Card
import Lineage.Proofs.Table

/-!
# Tables as plain maps

As far as live keys go, an ephemeral table is a plain map from keys to entities: a look-up finds what was
bound last, and binding, forgetting and counting are what they are for a map, in which a key that dies is
bound to nothing. When the table is swept, and how often, makes no difference to any of that, nor in
which order a sweep comes to the entries.
-/

namespace Lineage

/-! ### Keys of dictionaries -/

namespace Dict

variable {κ α : Type}

theorem nodup_filterKeys {d : Dict κ α} (nodup : d.keys.Nodup) (keep : κ → Bool) :
    (d.filterKeys keep).keys.Nodup :=
  nodup.sublist (List.filter_sublist.map Prod.fst)

theorem size_filterKeys_add (d : Dict κ α) (keep : κ → Bool) :
    (d.filterKeys fun key => !keep key).size + (d.filterKeys keep).size = d.size := by
  rw [Nat.add_comm]
  exact (List.length_eq_length_filter_add fun entry : κ × α => keep entry.1).symm

variable [DecidableEq κ]

theorem keys_rebind (key : κ) (value : α) (entries : List (κ × α)) :
    (rebind key value entries).map Prod.fst = entries.map Prod.fst := by
  induction entries with
  | nil => rfl
  | cons entry rest ih =>
    obtain ⟨k, v⟩ := entry
    unfold rebind
    split
    · next same =>
      rw [List.map_cons, List.map_cons, same]
    · rw [List.map_cons, List.map_cons, ih]

theorem contains_iff {d : Dict κ α} {key : κ} : d.contains key = true ↔ key ∈ d.keys := by
  rw [mem_keys_iff, contains, Option.isSome_iff_ne_none]

theorem nodup_set {d : Dict κ α} (nodup : d.keys.Nodup) (key : κ) (value : α) :
    (d.set key value).keys.Nodup := by
  unfold set
  split
  · rw [keys, keys_rebind]
    exact nodup
  · next new =>
    exact List.nodup_cons.mpr ⟨fun mem => new (contains_iff.mpr mem), nodup⟩

/-- The size is the number of keys that are found. -/
theorem encard_bound {d : Dict κ α} (nodup : d.keys.Nodup) :
    {key | d.get? key ≠ none}.encard = d.size := by
  have same : {key | d.get? key ≠ none} = (d.keys.toFinset : Set κ) := by
    ext key
    rw [List.coe_toFinset, Set.mem_ofPred_eq, Set.mem_ofPred_eq, mem_keys_iff]
  rw [same, Set.encard_coe_eq_coe_finsetCard, List.toFinset_card_of_nodup nodup, keys,
    List.length_map]
  rfl

end Dict

variable {κ E : Type}

/-- Sweeping where no entry owns a key of its table. -/
def Sweeping.fixed (alive : κ → Bool) (order : KeyOrder κ) : Sweeping Unit κ E where
  census _ := ()
  alive _ := alive
  order := order

namespace Table

/-! ### Sweeps that find the same keys alive throughout -/

section Fixed

variable [DecidableEq κ] (t : Table κ E) (alive : κ → Bool) (order : KeyOrder κ)

theorem visit_fixed (key : κ) :
    visit (.fixed alive order) t key = if alive key then t else (t.remove key).2 := rfl

theorem visits_fixed (keys : List κ) : keys.foldl (visit (.fixed alive order)) t =
    { t with bindings := t.bindings.filterKeys fun key => key ∉ keys || alive key } := by
  induction keys generalizing t with
  | nil =>
    have all : t.bindings.entries.filter (fun _ => true) = t.bindings.entries :=
      List.filter_true t.bindings.entries
    simp only [List.foldl_nil, Dict.filterKeys, List.not_mem_nil, not_false_eq_true, decide_true,
      Bool.true_or, all]
  | cons visited rest ih =>
    rw [List.foldl_cons, ih, visit_fixed]
    by_cases now : alive visited = true
    · rw [if_pos now]
      refine congrArg (fun bindings => { t with bindings }) (congrArg Dict.mk ?_)
      refine List.filter_congr fun entry _ => ?_
      by_cases same : entry.1 = visited
      · simp [same, now]
      · simp [same]
    · rw [if_neg now]
      refine congrArg (fun bindings => { t with bindings }) (congrArg Dict.mk ?_)
      refine (List.filter_filter ..).trans (List.filter_congr fun entry _ => ?_)
      by_cases same : entry.1 = visited
      · simp [same, now]
      · simp [same]

/-- In whatever order it comes to the entries, a sweep drops those of the dead keys. -/
theorem sweep_fixed : t.sweep (.fixed alive order) =
    (t.bindings.size - (t.bindings.filterKeys alive).size,
      { t with bindings := t.bindings.filterKeys alive, inserts := 0 }) := by
  have visited : t.bindings.filterKeys (fun key =>
      key ∉ order.arrange t.bindings.keys || alive key) = t.bindings.filterKeys alive := by
    refine congrArg Dict.mk (List.filter_congr fun entry mem => ?_)
    have listed : entry.1 ∈ order.arrange t.bindings.keys :=
      (order.perm _).mem_iff.mpr (List.mem_map_of_mem mem)
    simp [listed]
  have left := visits_fixed t alive order (order.arrange t.bindings.keys)
  rw [visited] at left
  rw [sweep_eq]
  exact congrArg (fun u : Table κ E => (t.bindings.size - u.bindings.size, { u with inserts := 0 })) left

theorem find?_sweep_fixed (key : κ) :
    (t.sweep (.fixed alive order)).2.find? key = if alive key then t.find? key else none := by
  rw [sweep_fixed]
  exact Dict.get?_filterKeys t.bindings alive key

end Fixed

/-! ### What is done to a table -/

/-- What is done to a table, and what happens to its keys. -/
inductive Event (κ E : Type) where
  | find (key : κ)
  | findOrInsert (key : κ) (content : E)
  | insert (key : κ) (content : E)
  | remove (key : κ)
  | sweep
  | liveSize
  | death (key : κ)

/-- A table and the keys that are alive. A key that dies while the table is being swept counts as having
    died before the sweep if that drops its entry, and after the sweep if it does not. -/
structure Life (κ E : Type) where
  table : Table κ E
  alive : κ → Bool
  /-- The order in which a sweep comes to the entries. -/
  order : KeyOrder κ

/-- A plain map, with all the entities that have been made for it. -/
structure Plain (κ E : Type) where
  bound : κ → Option (Entry E)
  made : List (Entry E)

variable [DecidableEq κ]

namespace Life

/-- An empty table; all keys are alive. -/
def start (interval : Nat) (order : KeyOrder κ := .asListed) : Life κ E :=
  ⟨.ofInterval interval, fun _ => true, order⟩

/-- The table is swept as the keys are alive. -/
def sweeping (l : Life κ E) : Sweeping Unit κ E := .fixed l.alive l.order

def next (l : Life κ E) : Event κ E → Life κ E
  | .find _ | .liveSize => l
  | .findOrInsert key content => { l with table := (l.table.findOrInsert l.sweeping key content).2.2 }
  | .insert key content => { l with table := (l.table.insert l.sweeping key content).2.2 }
  | .remove key => { l with table := (l.table.remove key).2 }
  | .sweep => { l with table := (l.table.sweep l.sweeping).2 }
  | .death key => { l with alive := fun k => l.alive k && k ≠ key }

def after (l : Life κ E) (events : List (Event κ E)) : Life κ E := events.foldl next l

/-- The table is asked about a live key. -/
def Allows (l : Life κ E) : Event κ E → Prop
  | .find key | .findOrInsert key _ | .insert key _ | .remove key => l.alive key = true
  | .sweep | .liveSize | .death _ => True

/-- The table is asked about live keys only. -/
def Proper (l : Life κ E) : List (Event κ E) → Prop
  | [] => True
  | event :: rest => l.Allows event ∧ (l.next event).Proper rest

end Life

namespace Plain

def start : Plain κ E := ⟨fun _ => none, []⟩

/-- The entity that is made next. -/
def fresh (p : Plain κ E) (content : E) : Entry E := { instanceNumber := p.made.length, content }

def bind (p : Plain κ E) (key : κ) (content : E) : Plain κ E :=
  ⟨Function.update p.bound key (some (p.fresh content)), p.fresh content :: p.made⟩

def unbind (p : Plain κ E) (key : κ) : Plain κ E :=
  { p with bound := Function.update p.bound key none }

def next (p : Plain κ E) : Event κ E → Plain κ E
  | .find _ | .liveSize | .sweep => p
  | .findOrInsert key content => if (p.bound key).isSome then p else p.bind key content
  | .insert key content => p.bind key content
  | .remove key | .death key => p.unbind key

def after (p : Plain κ E) (events : List (Event κ E)) : Plain κ E := events.foldl next p

end Plain

/-! ### The table and the map side by side -/

/-- The map has the bindings of the live keys. -/
structure Mirrors (l : Life κ E) (p : Plain κ E) : Prop where
  bound : ∀ key, p.bound key = if l.alive key then l.table.find? key else none
  made : p.made.length = l.table.created
  numbers : ∀ entry ∈ p.made, entry.instanceNumber < p.made.length
  nodup : l.table.bindings.keys.Nodup

theorem created_beforeInsert (t : Table κ E) (alive : κ → Bool) (order : KeyOrder κ) :
    (t.beforeInsert (.fixed alive order)).2.created = t.created := by
  rw [beforeInsert, sweep_fixed]
  dsimp only
  split <;> rfl

theorem nodup_beforeInsert {t : Table κ E} (nodup : t.bindings.keys.Nodup) (alive : κ → Bool)
    (order : KeyOrder κ) : (t.beforeInsert (.fixed alive order)).2.bindings.keys.Nodup := by
  rw [beforeInsert, sweep_fixed]
  dsimp only
  split
  · exact Dict.nodup_filterKeys nodup alive
  · exact nodup

namespace Mirrors

variable {l : Life κ E} {p : Plain κ E}

theorem find (mirrors : Mirrors l p) {key : κ} (alive : l.alive key = true) :
    l.table.find? key = p.bound key := by
  rw [mirrors.bound, if_pos alive]

theorem start (interval : Nat) (order : KeyOrder κ) :
    Mirrors (Life.start interval order : Life κ E) .start where
  bound _ := rfl
  made := rfl
  numbers := List.forall_mem_nil _
  nodup := List.nodup_nil

/-- A new entity is none of those made before. -/
theorem insert_fresh (mirrors : Mirrors l p) (key : κ) (content : E) :
    (l.table.insert l.sweeping key content).2.1 = p.fresh content := by
  have number := created_beforeInsert l.table l.alive l.order
  rw [← mirrors.made] at number
  exact congrArg (fun n => (⟨n, false, content⟩ : Entry E)) number

theorem insert (mirrors : Mirrors l p) {key : κ} (alive : l.alive key = true) (content : E) :
    Mirrors (l.next (.insert key content)) (p.bind key content) where
  bound other := by
    change Function.update p.bound key _ other = _
    by_cases same : other = key
    · subst same
      rw [Function.update_self, ← mirrors.insert_fresh other content, ← find?_insert_self]
      exact (if_pos alive).symm
    · rw [Function.update_of_ne same, mirrors.bound]
      cases live : l.alive other with
      | false => simp [Life.next, live]
      | true =>
        have spared := find?_insert_other l.table l.sweeping content same
        have kept := spared.find?_eq fun ⟨_, _, _, dead⟩ => Bool.false_ne_true (dead.symm.trans live)
        simp [Life.next, live, kept]
  made := by
    have number := created_beforeInsert l.table l.alive l.order
    rw [← mirrors.made] at number
    exact congrArg (· + 1) number.symm
  numbers := by
    refine List.forall_mem_cons.mpr ⟨Nat.lt_succ_self _, fun entry mem => ?_⟩
    exact (mirrors.numbers entry mem).trans (Nat.lt_succ_self _)
  nodup := Dict.nodup_set (nodup_beforeInsert mirrors.nodup l.alive l.order) key _

/-- Whatever is done with live keys, and whichever keys die, is done to the map alike. -/
theorem next (mirrors : Mirrors l p) {event : Event κ E} (allows : l.Allows event) :
    Mirrors (l.next event) (p.next event) := by
  cases event with
  | find key => exact mirrors
  | liveSize => exact mirrors
  | insert key content => exact mirrors.insert allows content
  | findOrInsert key content =>
    have found : l.table.find? key = p.bound key := mirrors.find allows
    rw [Plain.next]
    cases bound : p.bound key with
    | some entry =>
      rw [Option.isSome_some, if_pos rfl, Life.next, Table.findOrInsert, found, bound]
      exact mirrors
    | none =>
      rw [Option.isSome_none, if_neg Bool.false_ne_true, Life.next, Table.findOrInsert, found, bound]
      exact mirrors.insert allows content
  | remove key =>
    refine ⟨fun other => ?_, mirrors.made, mirrors.numbers, Dict.nodup_filterKeys mirrors.nodup _⟩
    change Function.update p.bound key none other =
      if l.alive other then (l.table.remove key).2.find? other else none
    rw [find?_remove]
    by_cases same : other = key
    · simp [same]
    · rw [Function.update_of_ne same, if_neg (Ne.symm same), mirrors.bound]
  | sweep =>
    rw [Life.next, Life.sweeping, sweep_fixed]
    refine ⟨fun other => ?_, mirrors.made, mirrors.numbers, Dict.nodup_filterKeys mirrors.nodup _⟩
    have found := Dict.get?_filterKeys l.table.bindings l.alive other
    change p.bound other = if l.alive other then (l.table.bindings.filterKeys l.alive).get? other
      else none
    rw [found, mirrors.bound]
    cases l.alive other <;> rfl
  | death key =>
    refine ⟨fun other => ?_, mirrors.made, mirrors.numbers, mirrors.nodup⟩
    change Function.update p.bound key none other =
      if l.alive other && other ≠ key then l.table.find? other else none
    by_cases same : other = key
    · simp [same]
    · simp [mirrors.bound, same]

theorem after (mirrors : Mirrors l p) {events : List (Event κ E)} (proper : l.Proper events) :
    Mirrors (l.after events) (p.after events) := by
  induction events generalizing l p with
  | nil => exact mirrors
  | cons event rest ih => exact ih (mirrors.next proper.1) proper.2

/-- As many keys are bound in the map as live keys have an entry. -/
theorem liveSize (mirrors : Mirrors l p) :
    {key | p.bound key ≠ none}.encard = l.table.liveSize l.alive := by
  refine Eq.trans ?_ (Dict.encard_bound (Dict.nodup_filterKeys mirrors.nodup l.alive))
  congr 1
  ext key
  rw [Set.mem_ofPred_eq, Set.mem_ofPred_eq, Dict.get?_filterKeys, mirrors.bound]
  rfl

/-- The keys that lose their entries to a sweep are as many as it tells. -/
theorem sweep_count (mirrors : Mirrors l p) :
    {key | l.table.find? key ≠ none ∧ (l.table.sweep l.sweeping).2.find? key = none}.encard =
      (l.table.sweep l.sweeping).1 := by
  have count : (l.table.bindings.filterKeys fun key => !l.alive key).size =
      (l.table.sweep l.sweeping).1 := by
    rw [Life.sweeping, sweep_fixed]
    exact Nat.eq_sub_of_add_eq (l.table.bindings.size_filterKeys_add l.alive)
  rw [← count]
  refine Eq.trans ?_ (Dict.encard_bound (Dict.nodup_filterKeys mirrors.nodup _))
  congr 1
  ext key
  rw [Set.mem_ofPred_eq, Set.mem_ofPred_eq, Dict.get?_filterKeys, Life.sweeping, find?_sweep_fixed]
  cases live : l.alive key with
  | false => simp [find?]
  | true => simp

end Mirrors

/-! ### The answers of the table -/

/-- What a table answers when it is asked about live keys, told by a plain map. -/
structure Refines (l : Life κ E) (p : Plain κ E) : Prop where
  /-- What is found is what is bound. -/
  find : ∀ key, l.alive key = true → l.table.find? key = p.bound key
  /-- Nothing is bound to a dead key. -/
  dead : ∀ key, l.alive key = false → p.bound key = none
  /-- An entity is made just for a key to which none is bound. -/
  findOrInsert : ∀ key content, l.alive key = true →
    (l.table.findOrInsert l.sweeping key content).2 =
      match p.bound key with
      | some entry => (entry, l.table)
      | none => (l.table.insert l.sweeping key content).2
  /-- What is inserted is none of the entities made before. -/
  insert : ∀ key content, (l.table.insert l.sweeping key content).2.1 = p.fresh content ∧
    ∀ old ∈ p.made, old.instanceNumber ≠ (p.fresh content).instanceNumber
  /-- Removing a key tells whether it was bound. -/
  remove : ∀ key, l.alive key = true → (l.table.remove key).1 = (p.bound key).isSome
  liveSize : {key | p.bound key ≠ none}.encard = l.table.liveSize l.alive
  /-- A sweep tells how many entries are gone. -/
  count : {key | l.table.find? key ≠ none ∧ (l.table.sweep l.sweeping).2.find? key = none}.encard =
    (l.table.sweep l.sweeping).1
  /-- The entries that a sweep drops are those of dead keys. -/
  dropped : ∀ key, l.table.find? key ≠ none →
    ((l.table.sweep l.sweeping).2.find? key = none ↔ l.alive key = false)
  /-- A sweep changes no answer. -/
  unchanged : (∀ key, l.alive key = true →
      (l.table.sweep l.sweeping).2.find? key = l.table.find? key) ∧
    (l.table.sweep l.sweeping).2.liveSize l.alive = l.table.liveSize l.alive

variable {l : Life κ E} {p : Plain κ E}

theorem Mirrors.refines (mirrors : Mirrors l p) : Refines l p where
  find _ alive := mirrors.find alive
  dead key dead := by
    rw [mirrors.bound, dead]
    rfl
  findOrInsert key content alive := by
    rw [Table.findOrInsert, ← mirrors.find alive]
    cases l.table.find? key <;> rfl
  insert key content := by
    refine ⟨mirrors.insert_fresh key content, fun old mem => ?_⟩
    exact Nat.ne_of_lt (mirrors.numbers old mem)
  remove key alive := congrArg Option.isSome (mirrors.find alive)
  liveSize := mirrors.liveSize
  count := mirrors.sweep_count
  dropped key bound := by
    rw [Life.sweeping, find?_sweep_fixed]
    cases l.alive key with
    | false => simp
    | true => simpa using bound
  unchanged := by
    -- the table that a sweep leaves still mirrors the same map
    have swept : Mirrors (l.next .sweep) p := mirrors.next (show l.Allows .sweep from trivial)
    refine ⟨fun key alive => (swept.find alive).trans (mirrors.find alive).symm, ?_⟩
    exact_mod_cast swept.liveSize.symm.trans mirrors.liveSize

/-- Whatever is done with live keys, and whichever keys die between, a table answers as a plain map. -/
theorem refines_plain (interval : Nat) (order : KeyOrder κ) (events : List (Event κ E))
    (proper : (Life.start interval order).Proper events) :
    Refines ((Life.start interval order).after events) (Plain.start.after events) :=
  ((Mirrors.start interval order).after proper).refines

/-! ### Guests in rooms -/

namespace Rooms

/-- Every other guest that is let in, the rooms of those who have died are cleared. -/
def days : List (Event Nat String) :=
  [.insert 1 "north", .death 1, .insert 2 "south", .find 2, .findOrInsert 2 "attic", .insert 3 "east",
    .death 3, .remove 2, .findOrInsert 2 "west", .insert 4 "attic", .death 4]

/-- The room that was taken first is looked into first. -/
def oldestFirst : KeyOrder Nat := ⟨List.reverse, List.reverse_perm⟩

theorem refines_plain_days :
    let l := (Life.start 2 oldestFirst).after days
    (Life.start 2 oldestFirst).Proper days ∧ Refines l (Plain.start.after days) ∧
      l.table.find? 2 = some ⟨3, false, "west"⟩ ∧ (l.table.sweep l.sweeping).1 = 1 := by
  have proper : (Life.start 2 oldestFirst).Proper days := by
    refine ⟨?_, trivial, ?_, ?_, ?_, ?_, trivial, ?_, ?_, ?_, trivial, trivial⟩ <;> rfl
  exact ⟨proper, refines_plain 2 oldestFirst days proper, rfl, rfl⟩

end Rooms

end Table

end Lineage

import Mathlib
import Lineage.Proofs.Holdings
import Lineage.Proofs.PlainMap

/-!
# What a sweep leaves

A sweep goes over the tables once: frames, then objects, then scopes, and in each table from entry to
entry, in whatever order. An entry is judged when the sweep comes to it, by the nodes that are in the
store by then, so one that is dropped later can take the last owner from a key whose entry has been
passed over, in an earlier table or in the same one. A sweep is complete just if that happens to no key,
and just if another sweep finds nothing to drop; as many sweeps as there are entries always come to a
complete one. The object of an entry can also be kept by the entry's own nodes: no sweep drops what a
traced write has put into the shadow of its receiver.
-/

namespace Lineage

/-! ### Sweeps of a table -/

/-- The last time that an element comes in a list. -/
theorem exists_last_of_mem {α : Type} {a : α} {l : List α} (mem : a ∈ l) :
    ∃ past later, l = past ++ a :: later ∧ a ∉ later := by
  obtain ⟨later, past, split, new⟩ := List.eq_append_cons_of_mem (List.mem_reverse.mpr mem)
  refine ⟨past.reverse, later.reverse, ?_, mt List.mem_reverse.mp new⟩
  rw [← List.reverse_reverse l, split, List.reverse_append, List.reverse_cons, List.append_assoc]
  rfl

namespace Table

variable {σ κ E : Type} [DecidableEq κ] {sweeping : Sweeping σ κ E} {t : Table κ E} {key other : κ}

theorem mem_entries_of_find? {entry : Entry E} (found : t.find? key = some entry) :
    (key, entry) ∈ t.bindings.entries := by
  obtain ⟨⟨k, e⟩, there, rfl⟩ := Option.map_eq_some_iff.mp found
  have same : k = key := by simpa using List.find?_some there
  exact same ▸ List.mem_of_find?_eq_some there

/-- A visit changes nothing unless there is an entry and its key is dead. -/
theorem visit_of_living (living : t.find? key ≠ none → sweeping.living t key = true) :
    visit sweeping t key = t := by
  unfold visit
  split
  · rfl
  · next dead =>
    have absent : ∀ binding ∈ t.bindings.entries, binding.1 ≠ key := by
      rintro binding mem rfl
      exact dead (living (Dict.mem_keys_iff.mp (List.mem_map_of_mem mem)))
    refine congrArg (fun bindings => { t with bindings }) (congrArg Dict.mk ?_)
    exact List.filter_eq_self.mpr fun binding mem => decide_eq_true (absent binding mem)

theorem entries_visit_subset (sweeping : Sweeping σ κ E) (t : Table κ E) (key : κ) :
    (visit sweeping t key).bindings.entries ⊆ t.bindings.entries := by
  unfold visit
  split
  · exact List.Subset.refl _
  · exact List.filter_subset_self _

/-- The visit to an entry does not touch those of another key. -/
theorem filter_entries_visit (ne : key ≠ other) :
    ((visit sweeping t key).bindings.entries.filter fun binding => binding.1 = other) =
      t.bindings.entries.filter fun binding => binding.1 = other := by
  unfold visit
  split
  · rfl
  · refine (List.filter_filter ..).trans (List.filter_congr fun binding _ => ?_)
    by_cases same : binding.1 = other
    · simp [same, ne.symm]
    · simp [same]

theorem find?_visit_ne_none_iff : (visit sweeping t key).find? other ≠ none ↔
    t.find? other ≠ none ∧ (other = key → sweeping.living t key = true) := by
  unfold visit
  by_cases living : sweeping.living t key = true
  · rw [if_pos living]
    exact ⟨fun bound => ⟨bound, fun _ => living⟩, And.left⟩
  · rw [if_neg living, find?_remove]
    by_cases same : key = other
    · rw [if_pos same]
      exact ⟨fun none' => absurd rfl none', fun h => absurd (h.2 same.symm) living⟩
    · rw [if_neg same]
      exact ⟨fun bound => ⟨bound, fun eq => absurd eq.symm same⟩, And.left⟩

theorem size_visit_le : (visit sweeping t key).bindings.size ≤ t.bindings.size := by
  unfold visit
  split
  · exact Nat.le_refl _
  · exact List.length_filter_le _ _

/-- The visit to an entry whose key is dead leaves fewer entries. -/
theorem size_visit_lt (sweeping : Sweeping σ κ E) (bound : t.find? key ≠ none)
    (dead : sweeping.living t key ≠ true) :
    (visit sweeping t key).bindings.size < t.bindings.size := by
  obtain ⟨binding, mem, same⟩ := List.mem_map.mp (Dict.mem_keys_iff.mpr bound)
  rw [visit, if_neg dead]
  exact List.length_filter_lt_length_iff_exists.mpr ⟨binding, mem, by simp [same]⟩

theorem size_visits_le (t : Table κ E) (keys : List κ) :
    (keys.foldl (visit sweeping) t).bindings.size ≤ t.bindings.size := by
  induction keys generalizing t with
  | nil => exact Nat.le_refl _
  | cons key rest ih => exact (ih _).trans size_visit_le

/-- A sweep accounts for the entries that are gone. -/
theorem sweep_size (t : Table κ E) (sweeping : Sweeping σ κ E) :
    (t.sweep sweeping).1 + (t.sweep sweeping).2.bindings.size = t.bindings.size := by
  rw [sweep_eq]
  exact Nat.sub_add_cancel (size_visits_le t _)

theorem sweep_of_fixed {alive : κ → Bool}
    (fixed : ∀ key ∈ t.bindings.keys, ∀ between, sweeping.living between key = alive key) :
    t.sweep sweeping = t.sweep (.fixed alive sweeping.order) := by
  have same : (sweeping.order.arrange t.bindings.keys).foldl (visit sweeping) t =
      (sweeping.order.arrange t.bindings.keys).foldl (visit (.fixed alive sweeping.order)) t := by
    refine List.foldl_ext _ _ _ fun between key mem => ?_
    rw [visit_fixed, visit, fixed key ((sweeping.order.perm _).mem_iff.mp mem)]
  rw [sweep_eq, sweep_eq, same]
  rfl

/-- Where all keys are dead, whatever is left of the table, no entry is left. -/
theorem sweep_of_dead (dead : ∀ key ∈ t.bindings.keys, ∀ between, sweeping.living between key = false) :
    t.sweep sweeping = (t.bindings.size, { t with bindings := {}, inserts := 0 }) := by
  have nothing : t.bindings.filterKeys (fun _ => false) = {} := congrArg Dict.mk (List.filter_false _)
  have fixed : t.sweep sweeping = t.sweep (.fixed (fun _ => false) sweeping.order) := sweep_of_fixed dead
  rw [fixed, sweep_fixed, nothing]
  rfl

/-- Where no key is dead, all entries are left. -/
theorem sweep_of_living (living : ∀ key, t.find? key ≠ none → sweeping.living t key = true) :
    t.sweep sweeping = (0, { t with inserts := 0 }) := by
  have whole : ∀ keys : List κ, keys.foldl (visit sweeping) t = t := by
    intro keys
    induction keys with
    | nil => rfl
    | cons key rest ih => rw [List.foldl_cons, visit_of_living (living key), ih]
  rw [sweep_eq, whole, Nat.sub_self]

end Table

variable {K : Kinds} {host : Host K}

/-! ### Sweeps of the store -/

namespace Store

variable {s : Store K} {handle other : Handle K} {handles : List (Handle K)}

/-- There is an entry for the entity. -/
def Has (s : Store K) : Handle K → Prop
  | .frame frame => s.frames.find? frame ≠ none
  | .object object => s.objects.find? object ≠ none
  | .scope scope => s.scopes.find? scope ≠ none

/-- No entry has a dead key. -/
def Swept (host : Host K) (s : Store K) : Prop :=
  ∀ handle, s.Has handle → host.Owns s.nodes handle

/-- The entries that the tables have, dead ones included. -/
def size (s : Store K) : Nat :=
  s.frames.bindings.size + s.objects.bindings.size + s.scopes.bindings.size

/-- A sweep comes to the entry of one entity. -/
def visit (host : Host K) (s : Store K) : Handle K → Store K
  | .frame frame => { s with frames := s.frames.visit (s.sweepingFrames host []) frame }
  | .object object => { s with objects := s.objects.visit (s.sweepingObjects host []) object }
  | .scope scope => { s with scopes := s.scopes.visit (s.sweepingScopes host []) scope }

/-- The entities to whose entries a sweep comes, one after the other. -/
def visits (host : Host K) (s : Store K) : List (Handle K) :=
  (host.order.frames.arrange s.frames.bindings.keys).map .frame ++
    (host.order.objects.arrange s.objects.bindings.keys).map .object ++
    (host.order.scopes.arrange s.scopes.bindings.keys).map .scope

/-- No insertions have been counted since the last sweep. -/
def rested (s : Store K) : Store K :=
  { s with
    frames := { s.frames with inserts := 0 }
    objects := { s.objects with inserts := 0 }
    scopes := { s.scopes with inserts := 0 } }

theorem visit_of_owned (owned : s.Has handle → host.Owns s.nodes handle) :
    s.visit host handle = s := by
  cases handle with
  | frame frame =>
    have same : s.frames.visit (s.sweepingFrames host []) frame = s.frames :=
      Table.visit_of_living owned
    rw [visit, same]
  | object object =>
    have same : s.objects.visit (s.sweepingObjects host []) object = s.objects :=
      Table.visit_of_living owned
    rw [visit, same]
  | scope scope =>
    have same : s.scopes.visit (s.sweepingScopes host []) scope = s.scopes :=
      Table.visit_of_living owned
    rw [visit, same]

/-- The only entry that a visit can drop is the one visited. -/
theorem has_visit : (s.visit host handle).Has other ↔
    s.Has other ∧ (other = handle → host.Owns s.nodes handle) := by
  have apart : other ≠ handle → (s.Has other ↔
      s.Has other ∧ (other = handle → host.Owns s.nodes handle)) :=
    fun ne => ⟨fun has => ⟨has, fun eq => absurd eq ne⟩, And.left⟩
  cases handle with
  | frame f =>
    cases other with
    | frame g =>
      rw [Handle.frame.injEq]
      exact Table.find?_visit_ne_none_iff
    | object => exact apart nofun
    | scope => exact apart nofun
  | object o =>
    cases other with
    | object p =>
      rw [Handle.object.injEq]
      exact Table.find?_visit_ne_none_iff
    | frame => exact apart nofun
    | scope => exact apart nofun
  | scope c =>
    cases other with
    | scope d =>
      rw [Handle.scope.injEq]
      exact Table.find?_visit_ne_none_iff
    | frame => exact apart nofun
    | object => exact apart nofun

theorem size_visit_lt (has : s.Has handle) (dead : ¬ host.Owns s.nodes handle) :
    (s.visit host handle).size < s.size := by
  unfold size visit
  cases handle with
  | frame frame =>
    have fewer := Table.size_visit_lt (s.sweepingFrames host []) has dead
    dsimp only
    omega
  | object object =>
    have fewer := Table.size_visit_lt (s.sweepingObjects host []) has dead
    dsimp only
    omega
  | scope scope =>
    have fewer := Table.size_visit_lt (s.sweepingScopes host []) has dead
    dsimp only
    omega

theorem nodes_visits_subset (handles : List (Handle K)) :
    (handles.foldl (visit host) s).nodes ⊆ s.nodes := by
  induction handles generalizing s with
  | nil => exact List.Subset.refl _
  | cons visited rest ih =>
    refine List.Subset.trans (ih (s := s.visit host visited)) ?_
    cases visited with
    | frame f =>
      exact Shadow.nodes_subset (Table.contents_visit _ _ f) (List.Subset.refl _)
        (List.Subset.refl _) rfl
    | object o =>
      exact Shadow.nodes_subset (List.Subset.refl _) (Table.contents_visit _ _ o)
        (List.Subset.refl _) rfl
    | scope c =>
      exact Shadow.nodes_subset (List.Subset.refl _) (List.Subset.refl _)
        (Table.contents_visit _ _ c) rfl

theorem has_of_has_visits (has : (handles.foldl (visit host) s).Has handle) : s.Has handle := by
  induction handles generalizing s with
  | nil => exact has
  | cons visited rest ih => exact (has_visit.mp (ih has)).1

theorem has_visits_of_not_mem (has : s.Has handle) (unvisited : handle ∉ handles) :
    (handles.foldl (visit host) s).Has handle := by
  induction handles generalizing s with
  | nil => exact has
  | cons visited rest ih =>
    obtain ⟨ne, later⟩ := List.ne_and_not_mem_of_not_mem_cons unvisited
    exact ih (has_visit.mpr ⟨has, fun eq => absurd eq ne⟩) later

theorem visits_of_owned (owned : ∀ handle ∈ handles, s.Has handle → host.Owns s.nodes handle) :
    handles.foldl (visit host) s = s := by
  induction handles with
  | nil => rfl
  | cons visited rest ih =>
    rw [List.foldl_cons, visit_of_owned (owned visited List.mem_cons_self)]
    exact ih fun handle mem => owned handle (List.mem_cons_of_mem visited mem)

theorem size_visits_le : (handles.foldl (visit host) s).size ≤ s.size := by
  induction handles generalizing s with
  | nil => exact Nat.le_refl _
  | cons visited rest ih =>
    refine (ih (s := s.visit host visited)).trans ?_
    by_cases owned : s.Has visited → host.Owns s.nodes visited
    · rw [visit_of_owned owned]
    · obtain ⟨has, dead⟩ := Classical.not_imp.mp owned
      exact (size_visit_lt has dead).le

/-- What is left after its entry has been visited had an owner at the last visit. -/
theorem owned_of_has_visits (mem : handle ∈ handles) (has : (handles.foldl (visit host) s).Has handle) :
    ∃ past later, handles = past ++ handle :: later ∧ handle ∉ later ∧
      (past.foldl (visit host) s).Has handle ∧ host.Owns (past.foldl (visit host) s).nodes handle := by
  obtain ⟨past, later, rfl, last⟩ := exists_last_of_mem mem
  rw [List.foldl_append, List.foldl_cons] at has
  obtain ⟨there, owned⟩ := has_visit.mp (has_of_has_visits has)
  exact ⟨past, later, rfl, last, there, owned rfl⟩

/-- Visits that leave as many entries as there were have found none with a dead key. -/
theorem owned_of_size_visits (same : (handles.foldl (visit host) s).size = s.size) :
    ∀ handle ∈ handles, s.Has handle → host.Owns s.nodes handle := by
  induction handles generalizing s with
  | nil => exact fun _ mem => absurd mem List.not_mem_nil
  | cons visited rest ih =>
    rw [List.foldl_cons] at same
    have owned : s.Has visited → host.Owns s.nodes visited := by
      intro has
      by_contra dead
      have fewer := size_visit_lt has dead
      have later : (rest.foldl (visit host) (s.visit host visited)).size ≤ _ := size_visits_le
      omega
    rw [visit_of_owned owned] at same
    exact List.forall_mem_cons.mpr ⟨owned, ih same⟩

theorem visits_frames (keys : List K.Frame) : (keys.map Handle.frame).foldl (visit host) s =
    { s with frames := keys.foldl (Table.visit (s.sweepingFrames host [])) s.frames } := by
  induction keys generalizing s with
  | nil => rfl
  | cons key rest ih =>
    rw [List.map_cons, List.foldl_cons, ih]
    rfl

theorem visits_objects (keys : List K.Object) : (keys.map Handle.object).foldl (visit host) s =
    { s with objects := keys.foldl (Table.visit (s.sweepingObjects host [])) s.objects } := by
  induction keys generalizing s with
  | nil => rfl
  | cons key rest ih =>
    rw [List.map_cons, List.foldl_cons, ih]
    rfl

theorem visits_scopes (keys : List K.Scope) : (keys.map Handle.scope).foldl (visit host) s =
    { s with scopes := keys.foldl (Table.visit (s.sweepingScopes host [])) s.scopes } := by
  induction keys generalizing s with
  | nil => rfl
  | cons key rest ih =>
    rw [List.map_cons, List.foldl_cons, ih]
    rfl

/-- A sweep is the visits that it makes. -/
theorem sweep_visits (s : Store K) (host : Host K) :
    (s.sweep host).2 = ((s.visits host).foldl (visit host) s).rested := by
  rw [visits, List.foldl_append, List.foldl_append, visits_frames, visits_objects, visits_scopes, sweep]
  simp only [sweepFrames, sweepObjects, sweepScopes, Table.sweep_eq]
  rfl

theorem mem_visits (host : Host K) (has : s.Has handle) : handle ∈ s.visits host := by
  have listed : ∀ {κ E : Type} [DecidableEq κ] {t : Table κ E} (order : KeyOrder κ) {key : κ},
      t.find? key ≠ none → key ∈ order.arrange t.bindings.keys :=
    fun order _ bound => (order.perm _).mem_iff.mpr (Dict.mem_keys_iff.mpr bound)
  rw [visits, List.mem_append, List.mem_append]
  cases handle with
  | frame frame => exact .inl (.inl (List.mem_map_of_mem (listed _ has)))
  | object object => exact .inl (.inr (List.mem_map_of_mem (listed _ has)))
  | scope scope => exact .inr (List.mem_map_of_mem (listed _ has))

theorem sweep_total (s : Store K) (host : Host K) :
    (s.sweep host).1.total + (s.sweep host).2.size = s.size := by
  let frameless := (s.sweepFrames host).2
  let objectless := (frameless.sweepObjects host).2
  have frames := s.frames.sweep_size (s.sweepingFrames host [])
  have objects := frameless.objects.sweep_size (frameless.sweepingObjects host [])
  have scopes := objectless.scopes.sweep_size (objectless.sweepingScopes host [])
  change _ + _ = s.objects.bindings.size at objects
  change _ + _ = s.scopes.bindings.size at scopes
  change (s.frames.sweep (s.sweepingFrames host [])).1 +
    (frameless.objects.sweep (frameless.sweepingObjects host [])).1 +
    (objectless.scopes.sweep (objectless.sweepingScopes host [])).1 +
    ((s.frames.sweep (s.sweepingFrames host [])).2.bindings.size +
      (frameless.objects.sweep (frameless.sweepingObjects host [])).2.bindings.size +
      (objectless.scopes.sweep (objectless.sweepingScopes host [])).2.bindings.size) =
    s.frames.bindings.size + s.objects.bindings.size + s.scopes.bindings.size
  omega

/-- A sweep finds nothing to drop just if there is no dead key. -/
theorem sweep_total_eq_zero_iff : (s.sweep host).1.total = 0 ↔ s.Swept host := by
  have total := s.sweep_total host
  rw [sweep_visits] at total
  change _ + ((s.visits host).foldl (visit host) s).size = _ at total
  constructor
  · intro nothing handle has
    rw [nothing, Nat.zero_add] at total
    exact owned_of_size_visits total handle (mem_visits host has) has
  · intro swept
    rw [visits_of_owned fun handle _ => swept handle] at total
    omega

theorem Swept.sweep (host : Host K) (swept : s.Swept host) : (s.sweep host).2.Swept host := by
  rw [sweep_visits, visits_of_owned fun handle _ => swept handle]
  exact swept

/-- A store with no dead key is left alone, in whatever orders it is swept. -/
theorem Swept.sweeps (swept : s.Swept host) (orders : List (SweepOrder K)) :
    (orders.foldl (fun t order => (t.sweep { host with order }).2) s).Swept host := by
  induction orders generalizing s with
  | nil => exact swept
  | cons order rest ih => exact ih (Swept.sweep { host with order } swept)

/-- Every sweep that finds a dead key leaves fewer entries, so that after as many sweeps as there are
    entries none is left to find. -/
theorem swept_sweeps (orders : List (SweepOrder K)) (many : s.size ≤ orders.length) :
    (orders.foldl (fun t order => (t.sweep { host with order }).2) s).Swept host := by
  induction orders generalizing s with
  | nil =>
    have total := s.sweep_total host
    rw [List.length_nil] at many
    have nothing : (s.sweep host).1.total = 0 := by omega
    exact sweep_total_eq_zero_iff.mp nothing
  | cons order rest ih =>
    by_cases swept : s.Swept host
    · exact swept.sweeps (order :: rest)
    · have total := s.sweep_total { host with order }
      have dropped : (s.sweep { host with order }).1.total ≠ 0 := mt sweep_total_eq_zero_iff.mp swept
      rw [List.length_cons] at many
      exact ih (s := (s.sweep { host with order }).2) (by omega)

/-- Take a sweep that comes to the entries in any order. It is complete just if every key whose entry it
    has passed over, as that of a key that had an owner at that moment, still has one in the end: no
    entry dropped since, of whatever table, was the last owner. It is complete just if another sweep, in
    any order again, drops nothing. After as many sweeps as there are entries no dead key is left. -/
theorem sweep_complete_iff (s : Store K) (host : Host K) :
    let left := (s.sweep host).2
    (left.Swept host ↔ ∀ past handle later, s.visits host = past ++ handle :: later →
      handle ∉ later →
      let now := past.foldl (visit host) s
      now.Has handle → host.Owns now.nodes handle → host.Owns left.nodes handle) ∧
    (∀ order, (left.sweep { host with order }).1.total = 0 ↔ left.Swept host) ∧
    ∀ orders : List (SweepOrder K), s.size ≤ orders.length →
      (orders.foldl (fun t order => (t.sweep { host with order }).2) s).Swept host := by
  intro left
  have left_eq : left = ((s.visits host).foldl (visit host) s).rested := sweep_visits s host
  refine ⟨⟨?_, ?_⟩, fun order => sweep_total_eq_zero_iff, fun orders => swept_sweeps orders⟩
  · intro swept past handle later split last now has owned
    refine swept handle ?_
    rw [left_eq, split, List.foldl_append, List.foldl_cons, visit_of_owned fun _ => owned]
    exact has_visits_of_not_mem has last
  · intro kept handle has
    rw [left_eq] at has
    obtain ⟨past, later, split, last, there, owned⟩ :=
      owned_of_has_visits (mem_visits host (has_of_has_visits has)) has
    exact kept past handle later split last there owned

end Store

/-- A node of the list, or one that such a node was computed from, has a value that refers to the
    object. -/
def Host.Refers (host : Host K) (nodes : List (Node K.Value)) (object : K.Object) : Prop :=
  ∃ node, Node.Reached nodes node ∧ Tracer.objectBehind host node = some object

/-- From nodes without origins no others are reached. -/
theorem Node.mem_of_reached_leaves {V : Type} {roots : List (Node V)}
    (leaves : ∀ node ∈ roots, node.origins = []) {node : Node V} (h : Reached roots node) :
    node ∈ roots := by
  induction h with
  | root mem => exact mem
  | origin _ mem ih =>
    rw [leaves _ ih] at mem
    cases mem

/-! ### The last owner goes with a later table

The host has let go of everything. A class variable is the last owner of an object that has an entry:
a sweep passes over that entry, then drops the class variable, and the next sweep drops the entry. -/

namespace LetGo

/-- Frames, objects and scopes are numbers, and a value may refer to an object. -/
abbrev things : Kinds where
  Frame := Nat
  Object := Nat
  Scope := Nat
  Value := Option Nat
  inspect := toString

/-- A host that keeps everything. -/
def keeping : Host things where
  callerOf _ := none
  argumentCount _ := 0
  objectOf := id
  survivors _ := ⟨fun _ => true, fun _ => true, fun _ => true⟩

open Classical in
/-- The host when it keeps nothing itself: objects survive by nodes alone. -/
noncomputable def leaving : Host things :=
  { keeping with survivors := fun kept =>
      { frame := fun _ => false
        object := fun o => decide (keeping.Refers kept o)
        scope := fun _ => false } }

theorem leaving_object {kept : List (Node (Option Nat))} {o : Nat} :
    (leaving.survivors kept).object o = true ↔ keeping.Refers kept o :=
  @decide_eq_true_iff _ (Classical.propDecidable _)

def at' (site : Site things) (moment : Moment (Option Nat)) : Act things :=
  .checkpoint keeping ⟨site, 0, moment⟩

def produce : Site things :=
  { id := ⟨1⟩, label := "b", categories := .single .noUseDefStack }

def read : Site things :=
  { id := ⟨2⟩, label := ".x", categories := .single .usePropertyStackDefStack, property := some "x" }

def assign : Site things :=
  { id := ⟨3⟩, label := "set @@c", categories := .single .useStackDefClassVar
    classVariable := some ⟨"c", 0⟩ }

/-- Object 7 is read from, and then assigned to a class variable. -/
def store : Store things :=
  ((⟨.ofInterval 0, 1, {}⟩ : Shadow things).afterAll {} [
    at' read .enter, at' produce (.leave (some 7)), at' read (.leave none),
    at' produce (.leave (some 7)), at' assign (.leave (some 7))]).store

/-- The node of the class variable. -/
def assigned : Node (Option Nat) :=
  ⟨5, some ⟨⟨3⟩, "set @@c"⟩, some (some 7), [⟨4, some ⟨⟨1⟩, "b"⟩, some (some 7), []⟩]⟩

/-- The node that the read has pushed. -/
def fetched : Node (Option Nat) :=
  ⟨3, some ⟨⟨2⟩, ".x"⟩, some none, [⟨1, some ⟨⟨1⟩, "b"⟩, some (some 7), []⟩, .unknown 2]⟩

/-- A table of one entry. -/
def single {κ E : Type} (key : κ) (content : E) : Table κ E where
  bindings := ⟨[(key, { instanceNumber := 0, content })]⟩
  inserts := 1
  created := 1

theorem store_eq : store = {
    frames := single 0 { stack := [assigned, fetched] }
    objects := single 7 ⟨[("x", .unknown 2)]⟩
    scopes := single 0 ⟨[("c", assigned)]⟩ } := by
  cbv

theorem leaving_refers_unknown {n o : Nat} : ¬ keeping.Refers [.unknown n] o := by
  rintro ⟨node, reached, refers⟩
  have leaves : ∀ node ∈ [Node.unknown (V := Option Nat) n], node.origins = [] := by
    intro node mem
    rw [List.mem_singleton.mp mem]
    rfl
  rw [List.mem_singleton.mp (Node.mem_of_reached_leaves leaves reached)] at refers
  cases refers

/-- The class variable owns the object as long as the sweep has not come to it. -/
theorem store_swept : store.sweep leaving = (⟨1, 0, 1⟩,
    { frames := { created := 1 }
      objects := { single 7 ⟨[("x", .unknown 2)]⟩ with inserts := 0 }
      scopes := { created := 1 } }) := by
  let frameless : Store things :=
    { frames := { created := 1 }
      objects := single 7 ⟨[("x", .unknown 2)]⟩
      scopes := single 0 ⟨[("c", assigned)]⟩ }
  let objectless := { frameless with objects := { frameless.objects with inserts := 0 } }
  have frames : store.sweepFrames leaving = (1, frameless) := by
    rw [store_eq, Store.sweepFrames, Table.sweep_of_dead fun _ _ _ => rfl]
    rfl
  have objects : frameless.sweepObjects leaving = (0, objectless) := by
    have owned : ∀ o, frameless.objects.find? o ≠ none →
        (frameless.sweepingObjects leaving []).living frameless.objects o = true := by
      intro o bound
      obtain rfl : o = 7 := List.mem_singleton.mp (Dict.mem_keys_iff.mpr bound)
      exact leaving_object.mpr ⟨assigned, .root (.tail _ (.head _)), rfl⟩
    rw [Store.sweepObjects, Table.sweep_of_living owned]
  have scopes : objectless.sweepScopes leaving =
      (1, { objectless with scopes := { created := 1 } }) := by
    rw [Store.sweepScopes, Table.sweep_of_dead fun _ _ _ => rfl]
    rfl
  rw [Store.sweep, frames]
  dsimp only
  rw [objects]
  dsimp only
  rw [scopes]

theorem entry_outlives_owner :
    let left := (store.sweep leaving).2
    (store.sweep leaving).1 = ⟨1, 0, 1⟩ ∧ ¬ left.Swept leaving ∧
      (left.sweep leaving).1.total = 1 := by
  rw [store_swept]
  intro left
  have dead : ¬ left.Swept leaving := fun swept =>
    leaving_refers_unknown (leaving_object.mp (swept (.object 7) (Option.some_ne_none _)))
  have total := left.sweep_total leaving
  have one : left.size = 1 := rfl
  have dropped := mt Store.sweep_total_eq_zero_iff.mp dead
  exact ⟨rfl, dead, by omega⟩

end LetGo

/-! ### Objects that survive by nodes alone -/

/-- Only nodes that are kept keep the object: the host does not own it itself. -/
def Host.OnlyByNodes (host : Host K) (object : K.Object) : Prop :=
  ∀ kept, (host.survivors kept).object object = true ↔ host.Refers kept object

theorem Host.refers_iff {nodes : List (Node K.Value)} {o : K.Object} :
    host.Refers nodes o ↔ ∃ root ∈ nodes, host.Refers [root] o := by
  have split : ∀ node, Node.Reached nodes node ↔ ∃ root ∈ nodes, Node.Reached [root] node := by
    intro node
    constructor
    · intro reached
      induction reached with
      | root mem => exact ⟨_, mem, .root List.mem_cons_self⟩
      | origin _ used ih =>
        obtain ⟨root, mem, reached⟩ := ih
        exact ⟨root, mem, .origin reached used⟩
    · rintro ⟨root, mem, reached⟩
      exact reached.mono fun node mem' => .root (List.mem_singleton.mp mem' ▸ mem)
  constructor
  · rintro ⟨node, reached, behind⟩
    obtain ⟨root, mem, reached⟩ := (split node).mp reached
    exact ⟨root, mem, node, reached, behind⟩
  · rintro ⟨root, mem, node, reached, behind⟩
    exact ⟨node, (split node).mpr ⟨root, mem, reached⟩, behind⟩

theorem Host.Refers.mono {nodes more : List (Node K.Value)} {o : K.Object} (h : host.Refers nodes o)
    (sub : nodes ⊆ more) : host.Refers more o := by
  obtain ⟨root, mem, refers⟩ := Host.refers_iff.mp h
  exact Host.refers_iff.mpr ⟨root, sub mem, refers⟩

namespace Store

/-- The nodes in the shadow of the object. -/
def own (s : Store K) (object : K.Object) : List (Node K.Value) :=
  (s.objects.bindings.entries.filter fun binding => binding.1 = object).flatMap
    fun binding => binding.2.content.values

/-- The nodes in the shadows of other objects and of scopes, and the globals. -/
def beside (s : Store K) (object : K.Object) : List (Node K.Value) :=
  (s.objects.bindings.entries.filter fun binding => binding.1 ≠ object).flatMap
    (fun binding => binding.2.content.values) ++
    s.scopes.contents.flatMap Dict.values ++ s.globals.values

theorem mem_own {s : Store K} {o : K.Object} {node : Node K.Value} :
    node ∈ s.own o ↔ ∃ entry, (o, entry) ∈ s.objects.bindings.entries ∧
      node ∈ entry.content.values := by
  simp only [own, List.mem_flatMap, List.mem_filter, decide_eq_true_eq]
  constructor
  · rintro ⟨⟨_, entry⟩, ⟨mem, rfl⟩, inside⟩
    exact ⟨entry, mem, inside⟩
  · rintro ⟨entry, mem, inside⟩
    exact ⟨(o, entry), ⟨mem, rfl⟩, inside⟩

/-- A node outside of all records is in the shadow of the object or beside it. -/
theorem mem_nodes_iff {s : Store K} (o : K.Object) {node : Node K.Value} :
    node ∈ s.nodes ↔ (∃ binding ∈ s.frames.bindings.entries, node ∈ binding.2.content.nodes) ∨
      node ∈ s.own o ∨ node ∈ s.beside o := by
  have objects : node ∈ s.objects.contents.flatMap Dict.values ↔
      node ∈ s.own o ∨ node ∈ (s.objects.bindings.entries.filter fun binding =>
        binding.1 ≠ o).flatMap fun binding => binding.2.content.values := by
    simp only [own, List.mem_flatMap, Table.mem_contents, Dict.values, List.mem_map, List.mem_filter,
      decide_eq_true_eq]
    constructor
    · rintro ⟨_, ⟨_, ⟨binding, mem, rfl⟩, rfl⟩, inside⟩
      by_cases same : binding.1 = o
      · exact .inl ⟨binding, ⟨mem, same⟩, inside⟩
      · exact .inr ⟨binding, ⟨mem, same⟩, inside⟩
    · rintro (⟨binding, ⟨mem, -⟩, inside⟩ | ⟨binding, ⟨mem, -⟩, inside⟩) <;>
        exact ⟨_, ⟨_, ⟨binding, mem, rfl⟩, rfl⟩, inside⟩
  have records : node ∈ s.frames.contents.flatMap Record.nodes ↔
      ∃ binding ∈ s.frames.bindings.entries, node ∈ binding.2.content.nodes := by
    simp only [List.mem_flatMap, Table.mem_contents, Dict.values, List.mem_map]
    constructor
    · rintro ⟨_, ⟨_, ⟨binding, mem, rfl⟩, rfl⟩, inside⟩
      exact ⟨binding, mem, inside⟩
    · rintro ⟨binding, mem, inside⟩
      exact ⟨_, ⟨_, ⟨binding, mem, rfl⟩, rfl⟩, inside⟩
  unfold nodes beside
  simp only [List.mem_append]
  rw [records, objects]
  simp only [or_assoc]

theorem beside_subset {s t : Store K} {o : K.Object}
    (objects : t.objects.bindings.entries ⊆ s.objects.bindings.entries)
    (scopes : t.scopes.contents ⊆ s.scopes.contents) (globals : t.globals = s.globals) :
    t.beside o ⊆ s.beside o := by
  intro node mem
  simp only [beside, List.mem_append, List.mem_flatMap, List.mem_filter, globals] at mem ⊢
  rcases mem with (⟨binding, ⟨there, other⟩, inside⟩ | ⟨slots, there, inside⟩) | global
  · exact .inl (.inl ⟨binding, ⟨objects there, other⟩, inside⟩)
  · exact .inl (.inr ⟨slots, scopes there, inside⟩)
  · exact .inr global

/-- The record of a frame that is dead, however much of the store has been given up, is not left. -/
theorem record_not_left {s : Store K} {binding : K.Frame × Entry (Record K.Value)}
    (dead : ∀ kept ⊆ s.nodes, (host.survivors kept).frame binding.1 = false) :
    binding ∉ (s.sweepFrames host).2.frames.bindings.entries := by
  intro left
  let keys := host.order.frames.arrange s.frames.bindings.keys
  have has : ((keys.map Handle.frame).foldl (visit host) s).Has (.frame binding.1) := by
    rw [visits_frames]
    rw [sweepFrames, Table.sweep_eq] at left
    exact Dict.mem_keys_iff.mp (List.mem_map_of_mem left)
  have listed : Handle.frame binding.1 ∈ keys.map Handle.frame :=
    List.mem_map_of_mem ((host.order.frames.perm _).mem_iff.mpr
      (Dict.mem_keys_iff.mpr (has_of_has_visits has)))
  obtain ⟨past, -, -, -, -, owned⟩ := owned_of_has_visits listed has
  exact Bool.false_ne_true ((dead _ (nodes_visits_subset past)).symm.trans owned)

/-- Nothing in the store refers to the object, unless it be its own shadow, which holds the nodes
    `own`. -/
structure Secluded (host : Host K) (o : K.Object) (own : List (Node K.Value)) (s : Store K) :
    Prop where
  own : s.own o = own
  records : ∀ binding ∈ s.frames.bindings.entries, ¬ host.Refers binding.2.content.nodes o
  beside : ¬ host.Refers (s.beside o) o

namespace Secluded

variable {s : Store K} {o : K.Object} {own : List (Node K.Value)} {handles : List (Handle K)}

theorem owns_iff (h : s.Secluded host o own) (letGo : host.OnlyByNodes o) :
    host.Owns s.nodes (.object o) ↔ host.Refers own o := by
  refine (letGo s.nodes).trans ⟨fun refers => ?_, fun refers => refers.mono fun node mem =>
    (mem_nodes_iff o).mpr (.inr (.inl (h.own ▸ mem)))⟩
  obtain ⟨root, mem, refers⟩ := Host.refers_iff.mp refers
  rcases (mem_nodes_iff o).mp mem with ⟨binding, there, inside⟩ | shadow | beside
  · exact absurd (Host.refers_iff.mpr ⟨root, inside, refers⟩) (h.records binding there)
  · exact Host.refers_iff.mpr ⟨root, h.own ▸ shadow, refers⟩
  · exact absurd (Host.refers_iff.mpr ⟨root, beside, refers⟩) h.beside

/-- A visit elsewhere leaves the shadow of the object as it is. -/
theorem visit (h : s.Secluded host o own) {handle : Handle K} (elsewhere : handle ≠ .object o) :
    (s.visit host handle).Secluded host o own := by
  cases handle with
  | frame f =>
    exact ⟨h.own, fun binding left => h.records binding (Table.entries_visit_subset _ _ f left), h.beside⟩
  | object p =>
    refine ⟨Eq.trans ?_ h.own, h.records, fun refers => h.beside (refers.mono ?_)⟩
    · refine congrArg (List.flatMap _) ?_
      exact Table.filter_entries_visit fun same => elsewhere (congrArg Handle.object same)
    · exact beside_subset (Table.entries_visit_subset _ _ p) (List.Subset.refl _) rfl
  | scope c =>
    exact ⟨h.own, h.records, fun refers => h.beside (refers.mono
      (beside_subset (List.Subset.refl _) (Table.contents_visit _ _ c) rfl))⟩

/-- An entry that keeps its own key alive is left. -/
theorem visits (h : s.Secluded host o own) (letGo : host.OnlyByNodes o) (refers : host.Refers own o) :
    (handles.foldl (Store.visit host) s).Secluded host o own := by
  induction handles generalizing s with
  | nil => exact h
  | cons handle rest ih =>
    refine ih (s := s.visit host handle) ?_
    by_cases own : handle = .object o
    · subst own
      rwa [visit_of_owned fun _ => (h.owns_iff letGo).mpr refers]
    · exact h.visit own

/-- An entry that does not is dropped when it is visited. -/
theorem dropped (h : s.Secluded host o own) (letGo : host.OnlyByNodes o) (none' : ¬ host.Refers own o)
    (listed : .object o ∈ handles) : ¬ (handles.foldl (Store.visit host) s).Has (.object o) := by
  induction handles generalizing s with
  | nil => cases listed
  | cons handle rest ih =>
    by_cases own : handle = .object o
    · subst own
      intro has
      have owned := (has_visit.mp (has_of_has_visits has)).2 rfl
      exact none' ((h.owns_iff letGo).mp owned)
    · exact ih (h.visit own) ((List.mem_cons.mp listed).resolve_left (Ne.symm own))

end Secluded

/-- An object that the host has let go of, and to which nothing refers but its own shadow and records
    that go with their frames, loses its entry in one sweep, unless its own shadow does refer to it: then
    the entry stays, and the object is still counted as alive. -/
theorem object_swept_iff {s : Store K} {o : K.Object} (letGo : host.OnlyByNodes o)
    (frames : ∀ binding ∈ (s.sweepFrames host).2.frames.bindings.entries,
      ¬ host.Refers binding.2.content.nodes o)
    (others : ¬ host.Refers (s.beside o) o) :
    let left := (s.sweep host).2
    (left.objects.find? o ≠ none ↔ host.Refers (s.own o) o) ∧
      (left.objects.find? o ≠ none → (left.survivors host []).object o = true) := by
  intro left
  -- the sweep comes to the objects when it is done with the frames
  let frameless := ((host.order.frames.arrange s.frames.bindings.keys).map Handle.frame).foldl
    (visit host) s
  let later := (host.order.objects.arrange s.objects.bindings.keys).map Handle.object ++
    (host.order.scopes.arrange s.scopes.bindings.keys).map Handle.scope
  have left_eq : left = (later.foldl (visit host) frameless).rested := by
    rw [← List.foldl_append, ← List.append_assoc]
    exact sweep_visits s host
  have frameless_eq : frameless = _ := visits_frames _
  have secluded : frameless.Secluded host o (s.own o) := by
    rw [frameless_eq]
    refine ⟨rfl, fun binding mem => frames binding ?_, others⟩
    rw [sweepFrames, Table.sweep_eq]
    exact mem
  have left_iff : left.objects.find? o ≠ none ↔ host.Refers (s.own o) o := by
    rw [left_eq]
    constructor
    · intro bound
      by_contra none'
      have before : s.objects.find? o ≠ none := by
        have there : frameless.Has (.object o) := has_of_has_visits bound
        rwa [frameless_eq] at there
      have listed : Handle.object o ∈ later := List.mem_append_left _ (List.mem_map_of_mem
        ((host.order.objects.perm _).mem_iff.mpr (Dict.mem_keys_iff.mpr before)))
      exact secluded.dropped letGo none' listed bound
    · intro refers
      obtain ⟨root, own, -⟩ := Host.refers_iff.mp refers
      rw [← (secluded.visits letGo refers).own] at own
      obtain ⟨entry, mem, -⟩ := mem_own.mp own
      exact Dict.mem_keys_iff.mp (List.mem_map_of_mem mem)
  refine ⟨left_iff, fun bound => ?_⟩
  have refers := left_iff.mp bound
  have final : (later.foldl (visit host) frameless).Secluded host o (s.own o) :=
    secluded.visits letGo refers
  rw [left_eq]
  exact (final.owns_iff letGo).mpr refers

end Store

/-- A completed write of a property leaves a node in the shadow of the receiver that was computed from a
    reference to the receiver. -/
theorem Tracer.write_refers {tracer : Tracer} {site : Site K} {frame : K.Frame} {value : K.Value}
    {s : Shadow K} (sane : s.Unpoisoned) {property : String} (found : site.property = some property)
    {receiver : Node K.Value} {others : List (Node K.Value)} {record : Record K.Value} {next : Nat}
    (run : (takeReceiver site (.writeWithoutReceiver site.id site.label)).run.run
      (s.recordOf frame, s.nextSeq) = (.ok (receiver, others), record, next))
    {o : K.Object} (behind : objectBehind host receiver = some o) :
    Ends (applyLeave tracer host site frame value .useStackDefPropertyStack) s fun r t =>
      r = .ok () ∧ host.Refers (t.store.own o) o := by
  refine (leave_assignProperty sane property found run).mono ?_
  rintro r t ⟨rfl, mid, late, popped, written, pushed⟩
  rw [behind] at written
  obtain ⟨entry, bound, content⟩ := Option.map_eq_some_iff.mp written.objects.here
  rw [← pushed.objects] at bound
  have stored : site.node next value (receiver :: others) ∈ t.store.own o := by
    refine Store.mem_own.mpr ⟨entry, Table.mem_entries_of_find? bound, ?_⟩
    rw [content]
    exact Dict.mem_values_of_get? (by rw [Dict.get?_set, if_pos rfl])
  exact ⟨rfl, receiver, .origin (.root stored) List.mem_cons_self, behind⟩

namespace LetGo

def write : Site things :=
  { id := ⟨4⟩, label := "set .x", categories := .single .useStackDefPropertyStack
    property := some "x" }

/-- A property of object 7 is read. -/
def looked : Store things :=
  ((⟨.ofInterval 0, 1, {}⟩ : Shadow things).afterAll {} [
    at' read .enter, at' produce (.leave (some 7)), at' read (.leave none)]).store

/-- A property of object 7 is written. -/
def written : Store things :=
  ((⟨.ofInterval 0, 1, {}⟩ : Shadow things).afterAll {} [
    at' write .enter, at' produce (.leave none), at' produce (.leave (some 7)),
    at' write (.leave none)]).store

theorem looked_eq : ∃ record, looked = {
    frames := single 0 record
    objects := single 7 ⟨[("x", .unknown 2)]⟩ } := by
  refine ⟨{ stack := [⟨3, some ⟨⟨2⟩, ".x"⟩, some none,
    [⟨1, some ⟨⟨1⟩, "b"⟩, some (some 7), []⟩, .unknown 2]⟩] }, ?_⟩
  cbv

theorem onlyByNodes : leaving.OnlyByNodes 7 := fun _ => leaving_object

theorem object_swept_read : (looked.sweep leaving).2.objects.find? 7 = none := by
  have frames : ∀ binding ∈ (looked.sweepFrames leaving).2.frames.bindings.entries,
      ¬ leaving.Refers binding.2.content.nodes 7 :=
    fun _ left => absurd left (Store.record_not_left fun _ _ => rfl)
  have others : ¬ leaving.Refers (looked.beside 7) 7 := by
    obtain ⟨record, built⟩ := looked_eq
    rw [built]
    rintro ⟨node, reached, -⟩
    exact Node.not_reached_nil reached
  have own : ¬ leaving.Refers (looked.own 7) 7 := by
    obtain ⟨record, built⟩ := looked_eq
    rw [built]
    exact leaving_refers_unknown
  exact Decidable.not_not.mp
    (mt (Store.object_swept_iff onlyByNodes frames others).1.mp own)

/-- The node of the property. -/
def property : Node (Option Nat) :=
  ⟨3, some ⟨⟨4⟩, "set .x"⟩, some none,
    [⟨2, some ⟨⟨1⟩, "b"⟩, some (some 7), []⟩, ⟨1, some ⟨⟨1⟩, "b"⟩, some none, []⟩]⟩

theorem property_refers : keeping.Refers [property] 7 :=
  ⟨⟨2, some ⟨⟨1⟩, "b"⟩, some (some 7), []⟩, .origin (.root (.head _)) (.head _), rfl⟩

theorem written_eq : ∃ record, written = {
    frames := single 0 record
    objects := single 7 ⟨[("x", property)]⟩ } := by
  refine ⟨{ stack := [property] }, ?_⟩
  cbv

theorem written_swept : written.sweep leaving = (⟨1, 0, 0⟩,
    { frames := { created := 1 }
      objects := { single 7 ⟨[("x", property)]⟩ with inserts := 0 } }) := by
  let frameless : Store things :=
    { frames := { created := 1 }
      objects := single 7 ⟨[("x", property)]⟩ }
  have frames : written.sweepFrames leaving = (1, frameless) := by
    obtain ⟨record, built⟩ := written_eq
    rw [built, Store.sweepFrames, Table.sweep_of_dead fun _ _ _ => rfl]
    rfl
  have objects : frameless.sweepObjects leaving =
      (0, { frameless with objects := { frameless.objects with inserts := 0 } }) := by
    have owned : ∀ o, frameless.objects.find? o ≠ none →
        (frameless.sweepingObjects leaving []).living frameless.objects o = true := by
      intro o bound
      obtain rfl : o = 7 := List.mem_singleton.mp (Dict.mem_keys_iff.mpr bound)
      exact leaving_object.mpr property_refers
    rw [Store.sweepObjects, Table.sweep_of_living owned]
  rw [Store.sweep, frames]
  dsimp only
  rw [objects]
  dsimp only
  rw [Store.sweepScopes, Table.sweep_of_dead fun _ _ _ => rfl]
  rfl

theorem written_object_stays :
    leaving.OnlyByNodes 7 ∧ (∀ f, (written.survivors leaving []).frame f = false) ∧
      ¬ leaving.Refers (written.beside 7) 7 ∧
      ((written.sweep leaving).2.stats leaving).objects = 1 := by
  refine ⟨onlyByNodes, fun _ => rfl, ?_, ?_⟩
  · obtain ⟨record, built⟩ := written_eq
    rw [built]
    rintro ⟨node, reached, -⟩
    exact Node.not_reached_nil reached
  · rw [written_swept]
    have alive : (leaving.survivors [property]).object 7 = true := leaving_object.mpr property_refers
    change ([(7, _)].filter fun binding => (leaving.survivors [property]).object binding.1).length = 1
    rw [List.filter_cons, if_pos alive]
    rfl

end LetGo

end Lineage

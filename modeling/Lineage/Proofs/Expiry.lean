import Lineage.Proofs.PlainMap

/-!
# How long the entry of a dead key stays

A table drops the entries of dead keys when it sweeps, and it sweeps as soon as its count of insertions
comes to the interval. A key may die at any moment, also while the table is being swept: if the sweep has
passed its entry by then, the entry waits for the next sweep (`Happening`, `foundAlive`). Going over the
entries one by one comes to the same: `Life.undergo_sweep`.

As long as the entry of a dead key is there, no sweep has taken place since the key died, so that every
insertion has been counted (`Life.through_kept`). The count never reaches the interval (`Paced`), and so
the interval is more than all insertions that such an entry lives to see.
-/

namespace Lineage.Table

variable {κ E : Type}

/-! ### What happens meanwhile -/

/-- What happens while a table is being swept. -/
inductive Happening (κ : Type) where
  /-- The sweep comes to the entry of this key. -/
  | visit (key : κ)
  | death (key : κ)

variable [DecidableEq κ]

/-- The keys that are still alive when all of it has happened. -/
def outlive (alive : κ → Bool) : List (Happening κ) → κ → Bool
  | [], key => alive key
  | .visit _ :: rest, key => outlive alive rest key
  | .death dying :: rest, key => outlive (fun k => alive k && k ≠ dying) rest key

/-- The keys that are alive when the sweep comes to their entries. An entry that is not mentioned comes
    last. -/
def foundAlive (alive : κ → Bool) : List (Happening κ) → κ → Bool
  | [], key => alive key
  | .visit visited :: rest, key => if visited = key then alive key else foundAlive alive rest key
  | .death dying :: rest, key => foundAlive (fun k => alive k && k ≠ dying) rest key

theorem outlive_of_dead {alive : κ → Bool} {key : κ} (dead : alive key = false)
    (meanwhile : List (Happening κ)) : outlive alive meanwhile key = false := by
  induction meanwhile generalizing alive with
  | nil => exact dead
  | cons happening rest ih =>
    cases happening with
    | visit visited => exact ih dead
    | death dying => exact ih (by simp [dead])

theorem foundAlive_of_dead {alive : κ → Bool} {key : κ} (dead : alive key = false)
    (meanwhile : List (Happening κ)) : foundAlive alive meanwhile key = false := by
  induction meanwhile generalizing alive with
  | nil => exact dead
  | cons happening rest ih =>
    cases happening with
    | visit visited =>
      rw [foundAlive]
      split
      · exact dead
      · exact ih dead
    | death dying => exact ih (by simp [dead])

/-- A key that is alive in the end was so when the sweep came to its entry. -/
theorem foundAlive_of_outlive {alive : κ → Bool} {key : κ} {meanwhile : List (Happening κ)}
    (outlives : outlive alive meanwhile key = true) : foundAlive alive meanwhile key = true := by
  induction meanwhile generalizing alive with
  | nil => exact outlives
  | cons happening rest ih =>
    cases happening with
    | visit visited =>
      rw [foundAlive]
      split
      · -- a key dead by now would be dead in the end
        cases now : alive key with
        | true => rfl
        | false => exact absurd (outlives.symm.trans (outlive_of_dead now rest)) (by decide)
      · exact ih outlives
    | death dying => exact ih outlives

/-! ### Episodes -/

/-- What is done to a table, and what happens while it is done. -/
structure Episode (κ E : Type) where
  event : Event κ E
  meanwhile : List (Happening κ) := []

namespace Life

/-- What an event leaves of the table while keys die: where it has the table swept, the sweep drops the
    entries of the keys that it does not find alive. -/
def undergo (l : Life κ E) (episode : Episode κ E) : Life κ E where
  table := ({ l with alive := foundAlive l.alive episode.meanwhile }.next episode.event).table
  alive := ({ l with alive := outlive l.alive episode.meanwhile }.next episode.event).alive
  order := l.order

def through (l : Life κ E) (episodes : List (Episode κ E)) : Life κ E := episodes.foldl undergo l

/-- The table is asked only about keys that are alive until it has answered. -/
def Serves (l : Life κ E) : List (Episode κ E) → Prop
  | [] => True
  | episode :: rest =>
      { l with alive := outlive l.alive episode.meanwhile }.Allows episode.event ∧
        (l.undergo episode).Serves rest

/-- The number of insertions that an event makes: looking up a key that is bound makes none. -/
def insertionsOf (l : Life κ E) : Event κ E → Nat
  | .insert _ _ => 1
  | .findOrInsert key _ => if (l.table.find? key).isSome then 0 else 1
  | .find _ | .remove _ | .sweep | .liveSize | .death _ => 0

/-- The number of insertions, fresh keys and replacements alike. -/
def insertions (l : Life κ E) : List (Episode κ E) → Nat
  | [] => 0
  | episode :: rest => l.insertionsOf episode.event + (l.undergo episode).insertions rest

end Life

/-! ### Entry by entry -/

/-- The keys whose entries the sweep comes to, in this order. -/
def visits : List (Happening κ) → List κ
  | [] => []
  | .visit key :: rest => key :: visits rest
  | .death _ :: rest => visits rest

/-- The keys that no visit of the sweep so far has found dead. -/
def notDropped (alive : κ → Bool) : List (Happening κ) → κ → Bool
  | [], _ => true
  | .visit visited :: rest, key => (visited ≠ key || alive key) && notDropped alive rest key
  | .death dying :: rest, key => notDropped (fun k => alive k && k ≠ dying) rest key

theorem notDropped_visit_of_alive {alive : κ → Bool} {visited : κ} (now : alive visited = true)
    (rest : List (Happening κ)) :
    notDropped alive (.visit visited :: rest) = notDropped alive rest := by
  funext key
  by_cases same : visited = key
  · subst same
    simp [notDropped, now]
  · simp [notDropped, same]

theorem notDropped_visit_of_dead {alive : κ → Bool} {visited : κ} (now : alive visited = false)
    (rest : List (Happening κ)) (key : κ) :
    notDropped alive (.visit visited :: rest) key =
      (notDropped alive rest key && key ≠ visited) := by
  by_cases same : visited = key
  · subst same
    simp [notDropped, now]
  · simp [notDropped, same, Ne.symm same]

theorem notDropped_of_unvisited {meanwhile : List (Happening κ)} {key : κ}
    (unvisited : key ∉ visits meanwhile) (alive : κ → Bool) :
    notDropped alive meanwhile key = true := by
  induction meanwhile generalizing alive with
  | nil => rfl
  | cons happening rest ih =>
    cases happening with
    | visit visited =>
      have ne := List.ne_of_not_mem_cons unvisited
      have later := List.not_mem_of_not_mem_cons unvisited
      simp [notDropped, ih later, Ne.symm ne]
    | death dying => exact ih unvisited _

/-- If no entry is visited twice, an entry is dropped just if its key is dead at the visit. -/
theorem notDropped_eq {meanwhile : List (Happening κ)} {key : κ}
    (once : (visits meanwhile).Nodup) (visited : key ∈ visits meanwhile) (alive : κ → Bool) :
    notDropped alive meanwhile key = foundAlive alive meanwhile key := by
  induction meanwhile generalizing alive with
  | nil => cases visited
  | cons happening rest ih =>
    cases happening with
    | death dying => exact ih once visited _
    | visit first =>
      obtain ⟨new, once⟩ := List.nodup_cons.mp once
      rw [notDropped, foundAlive]
      by_cases same : first = key
      · subst same
        simp [notDropped_of_unvisited new]
      · have later : key ∈ visits rest := List.mem_of_ne_of_mem (Ne.symm same) visited
        simp [same, ih once later]

namespace Life

/-- A sweep under way: the entry that it comes to is dropped if its key is dead by then. -/
def happen (l : Life κ E) : Happening κ → Life κ E
  | .visit key => if l.alive key then l else { l with table := (l.table.remove key).2 }
  | .death key => l.next (.death key)

/-- What has been dropped at any point of a sweep. -/
theorem happen_all (l : Life κ E) (meanwhile : List (Happening κ)) :
    meanwhile.foldl happen l =
      { l with
        table := { l.table with
          bindings := l.table.bindings.filterKeys (notDropped l.alive meanwhile) }
        alive := outlive l.alive meanwhile } := by
  induction meanwhile generalizing l with
  | nil =>
    obtain ⟨⟨⟨entries⟩, _, _, _⟩, alive, order⟩ := l
    have all : entries.filter (fun _ => true) = entries := List.filter_true entries
    simp only [List.foldl_nil, Dict.filterKeys, notDropped, all]
    rfl
  | cons happening rest ih =>
    cases happening with
    | death dying => exact ih (l.next (.death dying))
    | visit key =>
      rw [List.foldl_cons, ih, happen]
      cases now : l.alive key with
      | true =>
        rw [notDropped_visit_of_alive now]
        rfl
      | false =>
        simp only [Bool.false_eq_true, if_false, remove, Dict.erase, Dict.filterKeys,
          List.filter_filter, notDropped_visit_of_dead now]
        rfl

/-- To undergo a sweep while keys die is to have the entries visited one after the other, in any order
    but each of them once, with the deaths between. -/
theorem undergo_sweep (l : Life κ E) {meanwhile : List (Happening κ)}
    (once : (visits meanwhile).Nodup)
    (all : ∀ key ∈ l.table.bindings.keys, key ∈ visits meanwhile) :
    l.undergo ⟨.sweep, meanwhile⟩ =
      { l with
        table := { (meanwhile.foldl happen l).table with inserts := 0 }
        alive := (meanwhile.foldl happen l).alive } := by
  have kept : l.table.bindings.filterKeys (foundAlive l.alive meanwhile) =
      l.table.bindings.filterKeys (notDropped l.alive meanwhile) := by
    refine congrArg Dict.mk (List.filter_congr fun entry mem => ?_)
    exact (notDropped_eq once (all entry.1 (List.mem_map_of_mem mem)) l.alive).symm
  rw [happen_all, undergo, next, sweeping, sweep_fixed]
  exact congrArg (fun bindings => (⟨{ l.table with bindings, inserts := 0 },
    outlive l.alive meanwhile, l.order⟩ : Life κ E)) kept

end Life

/-! ### The count of insertions -/

/-- The count of insertions is below the interval. -/
structure Paced (interval : Nat) (t : Table κ E) : Prop where
  interval_eq : t.interval = interval
  inserts_lt : t.inserts < interval

section Counting

variable {interval : Nat} {t : Table κ E}

/-- An insertion is counted or has the table swept. -/
theorem Paced.beforeInsert_cases (paced : Paced interval t) (alive : κ → Bool) (order : KeyOrder κ) :
    t.inserts + 1 < interval ∧
        (t.beforeInsert (.fixed alive order)).2 = { t with inserts := t.inserts + 1 } ∨
      (t.beforeInsert (.fixed alive order)).2 = (t.sweep (.fixed alive order)).2 := by
  have below := paced.inserts_lt
  rw [beforeInsert, sweep_fixed, sweep_fixed]
  dsimp only
  split
  · exact .inr rfl
  · next due =>
    rw [paced.interval_eq] at due
    exact .inl ⟨by omega, rfl⟩

theorem Paced.sweep (paced : Paced interval t) (alive : κ → Bool) (order : KeyOrder κ) :
    Paced interval (t.sweep (.fixed alive order)).2 := by
  rw [sweep_fixed]
  exact ⟨paced.interval_eq, Nat.zero_lt_of_lt paced.inserts_lt⟩

theorem Paced.insert (paced : Paced interval t) (alive : κ → Bool) (order : KeyOrder κ) (key : κ)
    (content : E) : Paced interval (t.insert (.fixed alive order) key content).2.2 := by
  have before : Paced interval (t.beforeInsert (.fixed alive order)).2 := by
    rcases paced.beforeInsert_cases alive order with ⟨below, counted⟩ | swept
    · rw [counted]
      exact ⟨paced.interval_eq, below⟩
    · rw [swept]
      exact paced.sweep alive order
  exact ⟨before.interval_eq, before.inserts_lt⟩

/-- The entry of a dead key lives to see an insertion only if that is just counted. -/
theorem Paced.insert_kept (paced : Paced interval t) {alive : κ → Bool} {order : KeyOrder κ}
    {key dead : κ} {content : E} (ne : dead ≠ key) (gone : alive dead = false)
    (kept : (t.insert (.fixed alive order) key content).2.2.find? dead ≠ none) :
    t.find? dead ≠ none ∧
      (t.insert (.fixed alive order) key content).2.2.inserts = t.inserts + 1 := by
  have same : (t.insert (.fixed alive order) key content).2.2.find? dead =
      (t.beforeInsert (.fixed alive order)).2.find? dead := by
    change ((t.beforeInsert (.fixed alive order)).2.bindings.set key _).get? dead = _
    rw [Dict.get?_set, if_neg (Ne.symm ne)]
    rfl
  rw [same] at kept
  change _ ∧ (t.beforeInsert (.fixed alive order)).2.inserts = _
  rcases paced.beforeInsert_cases alive order with ⟨-, counted⟩ | swept
  · rw [counted] at kept ⊢
    exact ⟨kept, rfl⟩
  · rw [swept, find?_sweep_fixed, gone] at kept
    exact absurd rfl kept

end Counting

namespace Life

variable {interval : Nat} {l : Life κ E}

omit [DecidableEq κ] in
theorem start_paced (pos : 0 < interval) (order : KeyOrder κ) :
    Paced interval (start interval order : Life κ E).table :=
  ⟨rfl, pos⟩

theorem next_paced (paced : Paced interval l.table) (event : Event κ E) :
    Paced interval (l.next event).table := by
  cases event with
  | find key => exact paced
  | liveSize => exact paced
  | death key => exact paced
  | insert key content => exact paced.insert l.alive l.order key content
  | remove key => exact ⟨paced.interval_eq, paced.inserts_lt⟩
  | sweep => exact paced.sweep l.alive l.order
  | findOrInsert key content =>
    rw [next, findOrInsert]
    cases l.table.find? key with
    | some entry => exact paced
    | none => exact paced.insert l.alive l.order key content

/-- The entry of a dead key lives to see an event only if that does not have the table swept; then the
    insertions are counted. -/
theorem next_kept (paced : Paced interval l.table) {event : Event κ E} (allows : l.Allows event)
    {dead : κ} (gone : l.alive dead = false) (kept : (l.next event).table.find? dead ≠ none) :
    l.table.find? dead ≠ none ∧
      (l.next event).table.inserts = l.table.inserts + l.insertionsOf event := by
  have other : ∀ key, l.alive key = true → dead ≠ key := by
    rintro key alive rfl
    exact absurd (alive.symm.trans gone) (by decide)
  cases event with
  | find key => exact ⟨kept, rfl⟩
  | liveSize => exact ⟨kept, rfl⟩
  | death key => exact ⟨kept, rfl⟩
  | insert key content => exact paced.insert_kept (other key allows) gone kept
  | remove key =>
    rw [next, find?_remove, if_neg (Ne.symm (other key allows))] at kept
    exact ⟨kept, rfl⟩
  | sweep =>
    rw [next, sweeping, find?_sweep_fixed, gone] at kept
    exact absurd rfl kept
  | findOrInsert key content =>
    rw [next, findOrInsert] at kept ⊢
    rw [insertionsOf]
    cases found : l.table.find? key with
    | some entry =>
      rw [found] at kept
      exact ⟨kept, rfl⟩
    | none =>
      rw [found] at kept
      exact paced.insert_kept (other key allows) gone kept

theorem undergo_paced (paced : Paced interval l.table) (episode : Episode κ E) :
    Paced interval (l.undergo episode).table :=
  next_paced (l := { l with alive := foundAlive l.alive episode.meanwhile }) paced episode.event

theorem through_paced (paced : Paced interval l.table) (episodes : List (Episode κ E)) :
    Paced interval (l.through episodes).table := by
  induction episodes generalizing l with
  | nil => exact paced
  | cons episode rest ih => exact ih (undergo_paced paced episode)

/-- The dead stay dead. -/
theorem undergo_dead {dead : κ} (gone : l.alive dead = false) (episode : Episode κ E) :
    (l.undergo episode).alive dead = false := by
  have after := outlive_of_dead gone episode.meanwhile
  rw [undergo]
  cases episode.event with
  | death key => simp [next, after]
  | _ => exact after

/-- What is allowed while keys die is allowed with the keys that a sweep finds alive. -/
theorem allows_foundAlive {episode : Episode κ E}
    (allows : { l with alive := outlive l.alive episode.meanwhile }.Allows episode.event) :
    { l with alive := foundAlive l.alive episode.meanwhile }.Allows episode.event := by
  cases event : episode.event with
  | sweep => trivial
  | liveSize => trivial
  | death key => trivial
  | _ =>
    rw [event] at allows
    exact foundAlive_of_outlive allows

theorem serves_append {past future : List (Episode κ E)} (serves : l.Serves (past ++ future)) :
    (l.through past).Serves future := by
  induction past generalizing l with
  | nil => exact serves
  | cons episode rest ih => exact ih serves.2

/-- The entry of a dead key is still there only if all insertions have been counted. -/
theorem through_kept (paced : Paced interval l.table) {episodes : List (Episode κ E)}
    (serves : l.Serves episodes) {dead : κ} (gone : l.alive dead = false)
    (kept : (l.through episodes).table.find? dead ≠ none) :
    l.table.find? dead ≠ none ∧
      (l.through episodes).table.inserts = l.table.inserts + l.insertions episodes := by
  induction episodes generalizing l with
  | nil => exact ⟨kept, rfl⟩
  | cons episode rest ih =>
    obtain ⟨allows, serves⟩ := serves
    obtain ⟨there, count⟩ := ih (undergo_paced paced episode) serves (undergo_dead gone episode) kept
    obtain ⟨before, counted⟩ :=
      next_kept (l := { l with alive := foundAlive l.alive episode.meanwhile }) paced
        (allows_foundAlive allows) (foundAlive_of_dead gone episode.meanwhile) there
    have step : (l.undergo episode).table.inserts =
        l.table.inserts + l.insertionsOf episode.event := counted
    refine ⟨before, count.trans ?_⟩
    rw [step, insertions]
    omega

end Life

/-! ### How long -/

/-- Between any two things done to a table its count of insertions is below the interval, and the entry
    of a key that has died is gone after at most as many further insertions as the interval says. That
    holds with any sweeps between, and also if the key has died while the table was being swept. -/
theorem dead_entries_expire {interval : Nat} (pos : 0 < interval) (order : KeyOrder κ)
    (past future : List (Episode κ E))
    (serves : (Life.start interval order).Serves (past ++ future)) :
    ((Life.start interval order).through past).table.inserts < interval ∧
      ∀ key, ((Life.start interval order).through past).alive key = false →
        interval ≤ ((Life.start interval order).through past).insertions future →
        key ∉ (((Life.start interval order).through past).through future).table.bindings.keys := by
  have paced := Life.through_paced (Life.start_paced pos order) past
  refine ⟨paced.inserts_lt, fun key gone enough bound => ?_⟩
  have there := Option.isSome_iff_ne_none.mp (Dict.contains_iff.mpr bound)
  obtain ⟨-, count⟩ := Life.through_kept paced (Life.serves_append serves) gone there
  have below := (Life.through_paced paced future).inserts_lt
  omega

/-! ### A guest who leaves while the rooms are being cleared -/

namespace Checkout

/-- The guest in the first room dies when the sweep has just passed it. -/
def past : List (Episode Nat String) :=
  [⟨.insert 1 "north", []⟩, ⟨.insert 2 "south", [.visit 1, .death 1, .visit 2]⟩]

/-- A sweep is due again when the second guest has been let in, and not before. -/
def future : List (Episode Nat String) :=
  [⟨.insert 3 "east", []⟩, ⟨.findOrInsert 2 "attic", []⟩, ⟨.insert 2 "west", []⟩]

theorem dead_entries_expire_north :
    0 < 2 ∧ (Life.start 2).Serves (past ++ future) ∧
      ((Life.start 2).through past).alive 1 = false ∧
      2 ≤ ((Life.start 2).through past).insertions future ∧
      ((Life.start 2).through past).table.inserts < 2 ∧
      1 ∈ (((Life.start 2).through past).through (future.take 2)).table.bindings.keys ∧
      1 ∉ (((Life.start 2).through past).through future).table.bindings.keys := by
  have serves : (Life.start 2).Serves (past ++ future) := by
    refine ⟨?_, ?_, ?_, ?_, ?_, trivial⟩ <;> rfl
  obtain ⟨below, expire⟩ := dead_entries_expire (by decide) .asListed past future serves
  exact ⟨by decide, serves, rfl, Nat.le_refl 2, below, by decide, expire 1 rfl (Nat.le_refl 2)⟩

end Checkout

end Lineage.Table

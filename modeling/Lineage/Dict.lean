/-!
# Dictionaries

A finite map as the list of its entries, the first binding of a key being the one in force. It serves
every by-name store of the library (local histories, object slots, globals, the variables of the toy
host) and, keyed by entity, the ephemeral tables. New keys go to the front, where what a host is busy
with is found soonest. `get?_set`, `get?_erase` and `get?_filterKeys` say what each change does to a
look-up. Where the order in which keys are gone over matters, it is a `KeyOrder`.
-/

namespace Lineage

/-- A way to put keys in order; none is lost, and none comes more often than before. -/
structure KeyOrder (κ : Type) where
  arrange : List κ → List κ
  perm : ∀ keys, (arrange keys).Perm keys

/-- Keys stay in the order in which they are listed. -/
def KeyOrder.asListed {κ : Type} : KeyOrder κ := ⟨id, fun keys => .refl keys⟩

/-- Keys with their values; a key added later stands further in front. -/
structure Dict (κ α : Type) where
  entries : List (κ × α) := []

namespace Dict

variable {κ α : Type}

def empty : Dict κ α := {}

def size (d : Dict κ α) : Nat := d.entries.length

def isEmpty (d : Dict κ α) : Bool := d.entries.isEmpty

def keys (d : Dict κ α) : List κ := d.entries.map Prod.fst

def values (d : Dict κ α) : List α := d.entries.map Prod.snd

/-- Keeps the entries whose key passes `keep`. -/
def filterKeys (d : Dict κ α) (keep : κ → Bool) : Dict κ α :=
  ⟨d.entries.filter fun entry => keep entry.1⟩

variable [DecidableEq κ]

/-- Gives a key that is bound another value in its place. -/
def rebind (key : κ) (value : α) : List (κ × α) → List (κ × α)
  | [] => []
  | (k, v) :: rest => if k = key then (key, value) :: rest else (k, v) :: rebind key value rest

def get? (d : Dict κ α) (key : κ) : Option α :=
  (d.entries.find? fun entry => entry.1 = key).map Prod.snd

def contains (d : Dict κ α) (key : κ) : Bool := (d.get? key).isSome

/-- The value of `key`, or `fallback` where it has none. -/
def getD (d : Dict κ α) (key : κ) (fallback : α) : α := (d.get? key).getD fallback

def set (d : Dict κ α) (key : κ) (value : α) : Dict κ α :=
  if d.contains key then ⟨rebind key value d.entries⟩ else ⟨(key, value) :: d.entries⟩

def erase (d : Dict κ α) (key : κ) : Dict κ α :=
  d.filterKeys fun k => k ≠ key

theorem get?_empty (key : κ) : (empty : Dict κ α).get? key = none := rfl

theorem get?_cons (entry : κ × α) (rest : List (κ × α)) (key : κ) :
    (⟨entry :: rest⟩ : Dict κ α).get? key =
      if entry.1 = key then some entry.2 else (⟨rest⟩ : Dict κ α).get? key := by
  by_cases h : entry.1 = key <;> simp [get?, h]

theorem get?_rebind {entries : List (κ × α)} {key : κ}
    (h : (⟨entries⟩ : Dict κ α).contains key = true) (other : κ) (value : α) :
    (⟨rebind key value entries⟩ : Dict κ α).get? other =
      if key = other then some value else (⟨entries⟩ : Dict κ α).get? other := by
  induction entries with
  | nil => simp [contains, get?] at h
  | cons entry rest ih =>
    obtain ⟨k, v⟩ := entry
    by_cases hk : k = key
    · subst hk
      by_cases ho : k = other <;> simp [rebind, get?_cons, ho]
    · have := ih (by simpa [contains, get?_cons, hk] using h)
      by_cases ho : k = other
      · subst ho
        simp [rebind, get?_cons, hk, Ne.symm hk]
      · simp [rebind, get?_cons, hk, ho, this]

theorem mem_keys_iff {d : Dict κ α} {key : κ} : key ∈ d.keys ↔ d.get? key ≠ none := by
  rw [get?, ne_eq, Option.map_eq_none_iff, List.find?_eq_none, keys, List.mem_map]
  simp

theorem get?_set (d : Dict κ α) (key other : κ) (value : α) :
    (d.set key value).get? other = if key = other then some value else d.get? other := by
  rw [set]
  split
  · next h => exact get?_rebind h other value
  · exact get?_cons (key, value) d.entries other

/-- Binding a key to the value it has changes nothing. -/
theorem set_of_get? {d : Dict κ α} {key : κ} {value : α} (h : d.get? key = some value) :
    d.set key value = d := by
  obtain ⟨entries⟩ := d
  have bound : (⟨entries⟩ : Dict κ α).contains key = true := by simp [contains, h]
  rw [set, if_pos bound]
  congr
  clear bound
  induction entries with
  | nil => rfl
  | cons entry rest ih =>
    obtain ⟨k, v⟩ := entry
    rw [get?_cons] at h
    by_cases hk : k = key
    · simp only [hk, if_true, Option.some.injEq] at h
      simp [rebind, hk, h]
    · simp only [hk, if_false] at h
      simp [rebind, hk, ih h]

/-- Of two values bound to a key one after the other only the second matters. -/
theorem set_set (d : Dict κ α) (key : κ) (first second : α) :
    (d.set key first).set key second = d.set key second := by
  have bound : (d.set key first).contains key = true := by
    simp [contains, get?_set]
  conv => lhs; rw [set, if_pos bound]
  unfold set
  split
  · congr 1
    clear bound
    induction d.entries with
    | nil => rfl
    | cons entry rest ih =>
      obtain ⟨k, v⟩ := entry
      by_cases hk : k = key
      · simp [rebind, hk]
      · simp [rebind, hk, ih]
  · simp [rebind]

theorem mem_rebind {entries : List (κ × α)} {key : κ} {value : α} {entry : κ × α}
    (h : entry ∈ rebind key value entries) : entry = (key, value) ∨ entry ∈ entries := by
  induction entries with
  | nil => cases h
  | cons first rest ih =>
    obtain ⟨k, v⟩ := first
    unfold rebind at h
    split at h
    · rcases List.mem_cons.mp h with rfl | h
      · exact .inl rfl
      · exact .inr (List.mem_cons_of_mem _ h)
    · rcases List.mem_cons.mp h with rfl | h
      · exact .inr List.mem_cons_self
      · exact (ih h).imp id (List.mem_cons_of_mem _)

/-- A value in a changed dictionary is the new one or was there before. -/
theorem mem_values_set {d : Dict κ α} {key : κ} {value other : α}
    (h : other ∈ (d.set key value).values) : other = value ∨ other ∈ d.values := by
  obtain ⟨entry, mem, rfl⟩ := List.mem_map.mp h
  unfold set at mem
  split at mem
  · rcases mem_rebind mem with rfl | mem
    · exact .inl rfl
    · exact .inr (List.mem_map_of_mem mem)
  · rcases List.mem_cons.mp mem with rfl | mem
    · exact .inl rfl
    · exact .inr (List.mem_map_of_mem mem)

theorem mem_values_of_get? {d : Dict κ α} {key : κ} {value : α} (h : d.get? key = some value) :
    value ∈ d.values := by
  obtain ⟨entry, found, rfl⟩ := Option.map_eq_some_iff.mp h
  exact List.mem_map_of_mem (List.mem_of_find?_eq_some found)

omit [DecidableEq κ] in
theorem mem_of_mem_filterKeys {d : Dict κ α} {keep : κ → Bool} {value : α}
    (h : value ∈ (d.filterKeys keep).values) : value ∈ d.values := by
  obtain ⟨entry, mem, rfl⟩ := List.mem_map.mp h
  exact List.mem_map_of_mem (List.mem_filter.mp mem).1

theorem get?_filterKeys (d : Dict κ α) (keep : κ → Bool) (key : κ) :
    (d.filterKeys keep).get? key = if keep key then d.get? key else none := by
  obtain ⟨entries⟩ := d
  simp only [filterKeys, get?, List.find?_filter]
  induction entries with
  | nil => simp
  | cons entry rest ih =>
    by_cases h : entry.1 = key
    · subst h
      by_cases hk : keep entry.1 = true
      · simp [hk]
      · simp only [hk] at ih
        simp [hk]
        simpa using ih
    · simpa [List.find?_cons, h] using ih

theorem get?_erase (d : Dict κ α) (key other : κ) :
    (d.erase key).get? other = if key = other then none else d.get? other := by
  rw [erase, get?_filterKeys]
  by_cases h : key = other
  · simp [h]
  · simp [h, Ne.symm h]

end Dict

end Lineage

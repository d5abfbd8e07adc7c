import Lineage.Table

/-!
# Look-ups in ephemeral tables

What each operation of a table does to a look-up. A binding that an operation is not about is found
again afterwards, unless a sweep came between and found its key dead: `Table.Spares`. By then the sweep
may have dropped other entries, but none that is left in the end: `Sweeping.Loses`.
-/

namespace Lineage

variable {σ κ E : Type}

/-- The key has an owner as long as the table is as it is. -/
def Sweeping.living (sweeping : Sweeping σ κ E) (t : Table κ E) (key : κ) : Bool :=
  sweeping.alive (sweeping.census t) key

/-- The key is dead at some moment of a sweep that begins with `t` and leaves `left`. -/
def Sweeping.Loses (sweeping : Sweeping σ κ E) (t left : Table κ E) (key : κ) : Prop :=
  ∃ between : Table κ E, left.contents ⊆ between.contents ∧ between.contents ⊆ t.contents ∧
    sweeping.living between key = false

/-- The key is dead at some moment of a change from `t` to `after` that binds another key to `content`. -/
def Sweeping.LosesBinding (sweeping : Sweeping σ κ E) (t after : Table κ E) (content : E) (key : κ) :
    Prop :=
  ∃ between : Table κ E, (∀ c ∈ after.contents, c = content ∨ c ∈ between.contents) ∧
    between.contents ⊆ t.contents ∧ sweeping.living between key = false

namespace Table

variable [DecidableEq κ]

/-- Between `before` and `after` the binding of `key` stays, or is dropped as that of a dead key. -/
def Spares (dead : Prop) (before after : Table κ E) (key : κ) : Prop :=
  after.find? key = before.find? key ∨ after.find? key = none ∧ dead

namespace Spares

variable {dead : Prop} {t u v : Table κ E} {key : κ}

theorem refl (dead : Prop) (t : Table κ E) (key : κ) : Spares dead t t key := .inl rfl

theorem trans (first : Spares dead t u key) (second : Spares dead u v key) :
    Spares dead t v key := by
  rcases second with second | second
  · rcases first with first | first
    · exact .inl (second.trans first)
    · exact .inr ⟨second.trans first.1, first.2⟩
  · exact .inr second

theorem mono {weaker : Prop} (h : Spares dead t u key) (hw : dead → weaker) :
    Spares weaker t u key := h.imp id (And.imp id hw)

/-- The binding of a key that is not dead is found again. -/
theorem find?_eq (h : Spares dead t u key) (alive : ¬ dead) : u.find? key = t.find? key :=
  h.resolve_right fun hd => alive hd.2

theorem none_of_none (h : Spares dead t u key) (absent : t.find? key = none) :
    u.find? key = none := by
  rcases h with h | h
  · exact h.trans absent
  · exact h.1

/-- A binding found afterwards is the one from before. -/
theorem some_of_some {entry : Entry E} (h : Spares dead t u key)
    (found : u.find? key = some entry) : t.find? key = some entry := by
  rcases h with h | h
  · exact h.symm.trans found
  · simp [h.1] at found

end Spares

theorem find?_remove (t : Table κ E) (key other : κ) :
    (t.remove key).2.find? other = if key = other then none else t.find? other :=
  Dict.get?_erase t.bindings key other

omit [DecidableEq κ] in
theorem mem_contents {t : Table κ E} {c : E} :
    c ∈ t.contents ↔ ∃ entry ∈ t.bindings.values, entry.content = c := List.mem_map

theorem contents_remove (t : Table κ E) (key : κ) : (t.remove key).2.contents ⊆ t.contents := by
  intro c left
  obtain ⟨entry, mem, rfl⟩ := mem_contents.mp left
  exact mem_contents.mpr ⟨entry, Dict.mem_of_mem_filterKeys mem, rfl⟩

/-! ### Sweeps entry by entry -/

/-- A sweep comes to the entry of `key` and drops it if the key is dead by now. -/
def visit (sweeping : Sweeping σ κ E) (t : Table κ E) (key : κ) : Table κ E :=
  if sweeping.living t key then t else (t.remove key).2

section Visits

variable (sweeping : Sweeping σ κ E)

/-- It makes no difference that the living are counted anew only when an entry has been dropped. -/
theorem visitAll_eq (t : Table κ E) (keys : List κ) :
    visitAll sweeping t (sweeping.census t) keys = keys.foldl (visit sweeping) t := by
  induction keys generalizing t with
  | nil => rfl
  | cons key rest ih =>
    rw [List.foldl_cons, visitAll, visit, Sweeping.living]
    split
    · exact ih t
    · exact ih (t.remove key).2

theorem sweep_eq (t : Table κ E) :
    let left := (sweeping.order.arrange t.bindings.keys).foldl (visit sweeping) t
    t.sweep sweeping = (t.bindings.size - left.bindings.size, { left with inserts := 0 }) := by
  rw [sweep, visitAll_eq]

theorem contents_visit (t : Table κ E) (key : κ) : (visit sweeping t key).contents ⊆ t.contents := by
  unfold visit
  split
  · exact List.Subset.refl _
  · exact contents_remove t key

theorem contents_visits (t : Table κ E) (keys : List κ) :
    (keys.foldl (visit sweeping) t).contents ⊆ t.contents := by
  induction keys generalizing t with
  | nil => exact List.Subset.refl _
  | cons key rest ih => exact List.Subset.trans (ih _) (contents_visit sweeping t key)

theorem contents_sweep (t : Table κ E) : (t.sweep sweeping).2.contents ⊆ t.contents := by
  rw [sweep_eq]
  exact contents_visits sweeping t _

theorem spares_visits (t : Table κ E) (keys : List κ) (key : κ) :
    let left := keys.foldl (visit sweeping) t
    Spares (sweeping.Loses t left key) t left key := by
  induction keys generalizing t with
  | nil => exact .refl _ _ _
  | cons visited rest ih =>
    intro left
    have fewer := contents_visit sweeping t visited
    refine Spares.trans (u := visit sweeping t visited) ?_ ((ih _).mono ?_)
    · unfold visit
      by_cases now : sweeping.living t visited = true
      · rw [if_pos now]
        exact .refl _ _ _
      · rw [if_neg now, Spares, find?_remove]
        by_cases same : visited = key
        · subst same
          exact .inr ⟨if_pos rfl, t, contents_visits sweeping t (visited :: rest),
            List.Subset.refl _, Bool.not_eq_true _ ▸ now⟩
        · exact .inl (if_neg same)
    · rintro ⟨between, after, before, dead⟩
      exact ⟨between, after, List.Subset.trans before fewer, dead⟩

/-- A sweep drops the bindings of keys that it finds dead. -/
theorem find?_sweep (t : Table κ E) (key : κ) :
    Spares (sweeping.Loses t (t.sweep sweeping).2 key) t (t.sweep sweeping).2 key := by
  rw [sweep_eq]
  exact spares_visits sweeping t _ key

theorem contents_beforeInsert (t : Table κ E) : (t.beforeInsert sweeping).2.contents ⊆ t.contents := by
  unfold beforeInsert
  dsimp only
  split
  · exact contents_sweep sweeping _
  · exact List.Subset.refl _

theorem find?_beforeInsert (t : Table κ E) (key : κ) :
    Spares (sweeping.Loses t (t.beforeInsert sweeping).2 key) t (t.beforeInsert sweeping).2 key := by
  unfold beforeInsert
  dsimp only
  split
  · exact find?_sweep sweeping { t with inserts := t.inserts + 1 } key
  · exact .refl _ _ _

end Visits

theorem find?_insert_self (t : Table κ E) (sweeping : Sweeping σ κ E) (key : κ) (content : E) :
    (t.insert sweeping key content).2.2.find? key = some (t.insert sweeping key content).2.1 := by
  change ((t.beforeInsert sweeping).2.bindings.set key _).get? key = _
  rw [Dict.get?_set, if_pos rfl]
  rfl

theorem find?_insert_other (t : Table κ E) (sweeping : Sweeping σ κ E) {key other : κ} (content : E)
    (ne : other ≠ key) :
    Spares (sweeping.Loses t (t.beforeInsert sweeping).2 other) t
      (t.insert sweeping key content).2.2 other := by
  have spared := find?_beforeInsert sweeping t other
  have same : (t.insert sweeping key content).2.2.find? other =
      (t.beforeInsert sweeping).2.find? other := by
    change ((t.beforeInsert sweeping).2.bindings.set key _).get? other = _
    rw [Dict.get?_set, if_neg (Ne.symm ne)]
    rfl
  rwa [Spares, same]

/-- An entry that was there is the one found, and nothing is swept then; a new one holds `content`. -/
theorem findOrInsert_entry (t : Table κ E) (sweeping : Sweeping σ κ E) (key : κ) (content : E) :
    t.find? key = some (t.findOrInsert sweeping key content).2.1 ∧
        (t.findOrInsert sweeping key content).2.2 = t ∨
      t.find? key = none ∧
        t.findOrInsert sweeping key content = t.insert sweeping key content := by
  unfold findOrInsert
  cases t.find? key with
  | some found => exact .inl ⟨rfl, rfl⟩
  | none => exact .inr ⟨rfl, rfl⟩

theorem find?_findOrInsert_self (t : Table κ E) (sweeping : Sweeping σ κ E) (key : κ) (content : E) :
    (t.findOrInsert sweeping key content).2.2.find? key =
      some (t.findOrInsert sweeping key content).2.1 := by
  rcases findOrInsert_entry t sweeping key content with ⟨found, same⟩ | ⟨-, new⟩
  · rw [same]
    exact found
  · rw [new]
    exact find?_insert_self t sweeping key content

theorem find?_findOrInsert_other (t : Table κ E) (sweeping : Sweeping σ κ E) {key other : κ}
    (content : E) (ne : other ≠ key) :
    Spares (t.find? key = none ∧ sweeping.Loses t (t.beforeInsert sweeping).2 other) t
      (t.findOrInsert sweeping key content).2.2 other := by
  rcases findOrInsert_entry t sweeping key content with ⟨-, same⟩ | ⟨absent, new⟩
  · rw [same]
    exact .refl _ _ _
  · rw [new]
    exact (find?_insert_other t sweeping content ne).mono fun loses => ⟨absent, loses⟩

theorem find?_modify (t : Table κ E) (key other : κ) (change : Entry E → Entry E) :
    (t.modify key change).find? other =
      if key = other then (t.find? key).map change else t.find? other := by
  unfold modify
  cases h : t.find? key with
  | some entry => simp [find?, Dict.get?_set]
  | none =>
    by_cases hk : key = other
    · subst hk; simp [h]
    · simp [hk]

/-- Putting back what was found changes nothing. -/
theorem modify_of_fixed {t : Table κ E} {key : κ} {entry : Entry E} {change : Entry E → Entry E}
    (found : t.find? key = some entry) (fixed : change entry = entry) : t.modify key change = t := by
  unfold modify
  simp only [found, fixed, Dict.set_of_get? found]

/-! ### Contents -/

theorem contents_insert (t : Table κ E) (sweeping : Sweeping σ κ E) (key : κ) (content : E) {c : E}
    (h : c ∈ (t.insert sweeping key content).2.2.contents) :
    c = content ∨ c ∈ (t.beforeInsert sweeping).2.contents := by
  obtain ⟨entry, mem, rfl⟩ := mem_contents.mp h
  rcases Dict.mem_values_set mem with rfl | mem
  · exact .inl rfl
  · exact .inr (mem_contents.mpr ⟨entry, mem, rfl⟩)

theorem contents_modify (t : Table κ E) (key : κ) (content : E) {c : E}
    (h : c ∈ (t.modify key fun e => { e with content }).contents) :
    c = content ∨ c ∈ t.contents := by
  unfold modify at h
  split at h
  · obtain ⟨entry, mem, rfl⟩ := mem_contents.mp h
    rcases Dict.mem_values_set mem with rfl | mem
    · exact .inl rfl
    · exact .inr (mem_contents.mpr ⟨entry, mem, rfl⟩)
  · exact .inr h

/-- A content put in place of a new one leaves no trace of it. -/
theorem contents_insert_modify (t : Table κ E) (sweeping : Sweeping σ κ E) (key : κ)
    (fresh content : E) {c : E} (h : c ∈ ((t.insert sweeping key fresh).2.2.modify key
      fun e => { e with content }).contents) :
    c = content ∨ c ∈ (t.beforeInsert sweeping).2.contents := by
  have there := find?_insert_self t sweeping key fresh
  unfold modify at h
  simp only [there] at h
  obtain ⟨entry, mem, rfl⟩ := mem_contents.mp h
  change entry ∈ (((t.beforeInsert sweeping).2.bindings.set key _).set key _).values at mem
  rw [Dict.set_set] at mem
  rcases Dict.mem_values_set mem with rfl | mem
  · exact .inl rfl
  · exact .inr (mem_contents.mpr ⟨entry, mem, rfl⟩)

/-- As long as the key has an entry nothing is swept. -/
theorem contents_edit (t : Table κ E) (sweeping : Sweeping σ κ E) (key : κ) (fresh content : E)
    {c : E} (h : c ∈ ((t.findOrInsert sweeping key fresh).2.2.modify key
      fun e => { e with content }).contents) :
    c = content ∨ c ∈ t.contents ∧
      (t.find? key = none → c ∈ (t.beforeInsert sweeping).2.contents) := by
  rcases findOrInsert_entry t sweeping key fresh with ⟨found, same⟩ | ⟨-, new⟩
  · rw [same] at h
    refine (contents_modify t key content h).imp_right fun old => ⟨old, fun absent => ?_⟩
    cases absent.symm.trans found
  · rw [new] at h
    exact (contents_insert_modify t sweeping key fresh content h).imp_right fun old =>
      ⟨contents_beforeInsert sweeping t old, fun _ => old⟩

/-- The content bound to `key`. -/
def content? (t : Table κ E) (key : κ) : Option E := (t.find? key).map (·.content)

/-- No listener broke off while it held an entry of the table. -/
def Unpoisoned (t : Table κ E) : Prop :=
  ∀ key entry, t.find? key = some entry → entry.poisoned = false

/-- A sweep drops the contents of keys that it finds dead. -/
theorem content?_sweep (t : Table κ E) (sweeping : Sweeping σ κ E) (key : κ) :
    (t.sweep sweeping).2.content? key = t.content? key ∨
      (t.sweep sweeping).2.content? key = none ∧
        sweeping.Loses t (t.sweep sweeping).2 key := by
  unfold content?
  exact (find?_sweep sweeping t key).imp (congrArg _) (And.imp_left (congrArg _))

theorem unpoisoned_sweep {t : Table κ E} (sane : t.Unpoisoned) (sweeping : Sweeping σ κ E) :
    (t.sweep sweeping).2.Unpoisoned := fun key entry found =>
  sane key entry ((find?_sweep sweeping t key).some_of_some found)

theorem unpoisoned_remove {t : Table κ E} (sane : t.Unpoisoned) (key : κ) :
    (t.remove key).2.Unpoisoned := by
  intro other entry found
  rw [find?_remove] at found
  split at found
  · cases found
  · exact sane other entry found

/-- `after` binds `key` to `content`; besides, a sweep may have dropped bindings of `dead` keys. -/
structure Rebinds (dead : κ → Prop) (before after : Table κ E) (key : κ) (content : E) : Prop where
  here : after.content? key = some content
  others : ∀ other, other ≠ key → Spares (dead other) before after other
  unpoisoned : after.Unpoisoned
  contents : ∀ c ∈ after.contents, c = content ∨ c ∈ before.contents

theorem Spares.content?_eq {dead : Prop} {t u : Table κ E} {key : κ} (h : Spares dead t u key)
    (alive : ¬ dead) : u.content? key = t.content? key := by
  rw [content?, content?, h.find?_eq alive]

theorem Rebinds.mono {dead weaker : κ → Prop} {t u : Table κ E} {key : κ} {c : E}
    (h : Rebinds dead t u key c) (hw : ∀ k, dead k → weaker k) : Rebinds weaker t u key c where
  here := h.here
  others other ne := (h.others other ne).mono (hw other)
  unpoisoned := h.unpoisoned
  contents := h.contents

theorem unpoisoned_of_spares {dead : κ → Prop} {t u : Table κ E} {key : κ} (sane : t.Unpoisoned)
    (here : ∀ entry, u.find? key = some entry → entry.poisoned = false)
    (others : ∀ other, other ≠ key → Spares (dead other) t u other) : u.Unpoisoned := by
  intro other entry found
  by_cases same : other = key
  · subst same
    exact here entry found
  · exact sane other entry ((others other same).some_of_some found)

theorem rebinds_insert {t : Table κ E} (sane : t.Unpoisoned) (sweeping : Sweeping σ κ E) (key : κ)
    (content : E) :
    let after := (t.insert sweeping key content).2.2
    Rebinds (sweeping.LosesBinding t after content) t after key content := by
  have others : ∀ other, other ≠ key →
      Spares (sweeping.LosesBinding t (t.insert sweeping key content).2.2 content other) t
        (t.insert sweeping key content).2.2 other := fun other ne =>
    (find?_insert_other t sweeping content ne).mono fun ⟨between, after, before, dead⟩ =>
      ⟨between, fun _ mem => (contents_insert t sweeping key content mem).imp_right (after ·), before,
        dead⟩
  refine ⟨by rw [content?, find?_insert_self]; rfl, others, unpoisoned_of_spares sane ?_ others, ?_⟩
  · intro entry found
    rw [find?_insert_self] at found
    cases found
    rfl
  · exact fun _ mem => (contents_insert t sweeping key content mem).imp_right
      (contents_beforeInsert sweeping t ·)

theorem findOrInsert_poisoned {t : Table κ E} (sane : t.Unpoisoned) (sweeping : Sweeping σ κ E)
    (key : κ) (content : E) : (t.findOrInsert sweeping key content).2.1.poisoned = false := by
  rcases findOrInsert_entry t sweeping key content with ⟨found, -⟩ | ⟨-, new⟩
  · exact sane key _ found
  · rw [new]
    rfl

/-- The entry opened holds what the key was bound to, or else `fresh`. -/
theorem findOrInsert_content (t : Table κ E) (sweeping : Sweeping σ κ E) (key : κ) (fresh : E) :
    (t.findOrInsert sweeping key fresh).2.1.content = (t.content? key).getD fresh := by
  rcases findOrInsert_entry t sweeping key fresh with ⟨found, -⟩ | ⟨absent, new⟩
  · rw [content?, found]
    rfl
  · rw [content?, absent, new]
    rfl

/-- Opening an entry and putting another content in it. -/
theorem rebinds_edit {t : Table κ E} (sane : t.Unpoisoned) (sweeping : Sweeping σ κ E) (key : κ)
    (fresh content : E) :
    let after := (t.findOrInsert sweeping key fresh).2.2.modify key fun e => { e with content }
    Rebinds (fun k => t.content? key = none ∧ sweeping.LosesBinding t after content k) t after key
      content := by
  intro after
  have others : ∀ other, other ≠ key →
      Spares (t.content? key = none ∧ sweeping.LosesBinding t after content other) t after other := by
    intro other ne
    have same := find?_modify (t.findOrInsert sweeping key fresh).2.2 key other
      fun e => { e with content }
    rw [if_neg (Ne.symm ne)] at same
    rw [Spares, same]
    refine (find?_findOrInsert_other t sweeping fresh ne).mono ?_
    rintro ⟨absent, between, after, before, dead⟩
    exact ⟨Option.map_eq_none_iff.mpr absent, between, fun c mem =>
      (contents_edit t sweeping key fresh content mem).imp_right fun old => after (old.2 absent),
      before, dead⟩
  have here := find?_modify (t.findOrInsert sweeping key fresh).2.2 key key
    fun e => { e with content }
  rw [if_pos rfl, find?_findOrInsert_self] at here
  refine ⟨by rw [content?, here]; rfl, others, unpoisoned_of_spares sane ?_ others,
    fun _ mem => (contents_edit t sweeping key fresh content mem).imp_right And.left⟩
  intro entry found
  rw [here] at found
  cases found
  exact findOrInsert_poisoned sane sweeping key fresh

/-- Putting another content in an entry that is there. -/
theorem rebinds_modify {t : Table κ E} (sane : t.Unpoisoned) {key : κ} {old : E}
    (bound : t.content? key = some old) (content : E) :
    Rebinds (fun _ => False) t (t.modify key fun e => { e with content }) key content := by
  obtain ⟨entry, found, -⟩ := Option.map_eq_some_iff.mp bound
  have others : ∀ other, other ≠ key →
      Spares False t (t.modify key fun e => { e with content }) other := by
    intro other ne
    exact .inl (by rw [find?_modify, if_neg (Ne.symm ne)])
  have here := find?_modify t key key fun e => { e with content }
  rw [if_pos rfl, found] at here
  refine ⟨by rw [content?, here]; rfl, others, unpoisoned_of_spares sane ?_ others,
    fun _ mem => contents_modify t key content mem⟩
  intro changed foundAfter
  rw [here] at foundAfter
  cases foundAfter
  exact sane key entry found

end Table

end Lineage

import Mathlib.Algebra.GroupWithZero.Nat
import Lineage.Ownership

/-!
# What counted ownership keeps

Every cell has at least as many owners as there are handles on it, cells that refer to it, and shares
still to be given up: `Heap.Accounts`, which giving up a share preserves. So a set of cells each of
which is on a handle, or is referred to from within the set, is there after a census: `census_keeps`.
The cells that are left are such a set themselves: `census_supports`.
-/

namespace Lineage.Heap

/-- How often one place refers to cell `k`. -/
def countIn (k : Nat) (place : Option Cell) : Nat := (place.map fun cell => cell.refs.count k).getD 0

/-- How often the cells of the heap refer to cell `k`. -/
def references (heap : Heap) (k : Nat) : Nat := (heap.places.toList.map (countIn k)).sum

theorem sum_map_set {α : Type} (f : α → Nat) {old : α} {l : List α} {i : Nat}
    (h : l[i]? = some old) (x : α) : ((l.set i x).map f).sum + f old = (l.map f).sum + f x := by
  induction l generalizing i with
  | nil => simp at h
  | cons a l ih =>
    cases i with
    | zero =>
      simp only [List.getElem?_cons_zero, Option.some.injEq] at h
      subst h
      simp only [List.set_cons_zero, List.map_cons, List.sum_cons]
      omega
    | succ i =>
      have := ih (by simpa using h)
      simp only [List.set_cons_succ, List.map_cons, List.sum_cons]
      omega

theorem getElem?_of_cell? {heap : Heap} {i : Nat} {cell : Cell} (h : heap.cell? i = some cell) :
    heap.places.toList[i]? = some (some cell) := by
  have hi := lt_of_cell? h
  have held : heap.places[i] = some cell := by simpa [cell?, hi] using h
  simp [hi, held]

theorem references_put {heap : Heap} {i : Nat} {old : Cell} (h : heap.cell? i = some old)
    (cell : Option Cell) (k : Nat) :
    (heap.put i cell).references k + old.refs.count k = heap.references k + countIn k cell := by
  have := sum_map_set (countIn k) (getElem?_of_cell? h) cell
  simpa [references, put, countIn] using this

theorem countIn_le {heap : Heap} {i : Nat} {cell : Cell} (h : heap.cell? i = some cell) (k : Nat) :
    cell.refs.count k ≤ heap.references k := by
  have := references_put h none k
  simp only [countIn, Option.map_none, Option.getD_none] at this
  omega

/-- Every cell has an owner for each handle, each reference and each share still to be given up. -/
def Accounts (heap : Heap) (handles work : List Nat) : Prop :=
  ∀ i cell, heap.cell? i = some cell →
    handles.count i + heap.references i + work.count i ≤ cell.owners

/-- Each cell of the set is there, and is on a handle or referred to by a cell of the set. -/
def Supported (heap : Heap) (handles : List Nat) (kept : Nat → Prop) : Prop :=
  ∀ i, kept i → ∃ cell, heap.cell? i = some cell ∧
    (i ∈ handles ∨ ∃ j other, kept j ∧ heap.cell? j = some other ∧ i ∈ other.refs)

variable {heap : Heap} {handles work : List Nat} {kept : Nat → Prop} {i : Nat}

/-- A cell of a supported set has an owner besides the shares still to be given up. -/
theorem Supported.owned (acc : Accounts heap handles work) (held : Supported heap handles kept)
    {cell : Cell} (here : heap.cell? i = some cell) (hi : kept i) :
    work.count i < cell.owners := by
  have total := acc i cell here
  obtain ⟨_, _, onHandle | ⟨j, other, hj, there, mem⟩⟩ := held i hi
  · have := List.count_pos_iff.mpr onHandle
    omega
  · have := List.count_pos_iff.mpr mem
    have := countIn_le there i
    omega

theorem Accounts.skip (acc : Accounts heap handles (i :: work)) (gone : heap.cell? i = none) :
    Accounts heap handles work := by
  intro k cell here
  have := acc k cell here
  have : i ≠ k := by
    rintro rfl
    simp [gone] at here
  rwa [List.count_cons_of_ne this] at *

/-- A cell that goes leaves its share in other cells to be given up. -/
theorem Accounts.free (acc : Accounts heap handles (i :: work)) {cell : Cell}
    (here : heap.cell? i = some cell) : Accounts (heap.put i none) handles (cell.refs ++ work) := by
  intro k other there
  rw [cell?_put heap i k none (lt_of_cell? here)] at there
  split at there
  · cases there
  · next ne =>
    have total := acc k other there
    have moved := references_put here none k
    simp only [countIn, Option.map_none, Option.getD_none] at moved
    rw [List.count_cons_of_ne ne] at total
    rw [List.count_append]
    omega

theorem Accounts.lower (acc : Accounts heap handles (i :: work)) {cell : Cell}
    (here : heap.cell? i = some cell) :
    Accounts (heap.put i (some { cell with owners := cell.owners - 1 })) handles work := by
  intro k other there
  have moved := references_put here (some { cell with owners := cell.owners - 1 }) k
  simp only [countIn, Option.map_some, Option.getD_some] at moved
  rw [cell?_put heap i k _ (lt_of_cell? here)] at there
  split at there
  · next same =>
    subst same
    have total := acc i cell here
    rw [List.count_cons_self] at total
    cases there
    dsimp only
    omega
  · next ne =>
    have total := acc k other there
    rw [List.count_cons_of_ne ne] at total
    omega

/-- Changing a cell but not what it refers to supports the same cells. -/
theorem Supported.lower (held : Supported heap handles kept) {cell : Cell}
    (here : heap.cell? i = some cell) :
    Supported (heap.put i (some { cell with owners := cell.owners - 1 })) handles kept := by
  have same : ∀ k old, heap.cell? k = some old → ∃ new,
      (heap.put i (some { cell with owners := cell.owners - 1 })).cell? k = some new ∧
        new.refs = old.refs := by
    intro k old there
    rw [cell?_put heap i k _ (lt_of_cell? here)]
    split
    · next eq =>
      subst eq
      rw [here] at there
      cases there
      exact ⟨_, rfl, rfl⟩
    · exact ⟨old, there, rfl⟩
  intro k hk
  obtain ⟨old, there, support⟩ := held k hk
  obtain ⟨new, now, -⟩ := same k old there
  refine ⟨new, now, support.imp id ?_⟩
  rintro ⟨j, other, hj, before, mem⟩
  obtain ⟨after, found, refs⟩ := same j other before
  exact ⟨j, after, hj, found, refs ▸ mem⟩

/-- A cell outside the set supports nothing in it. -/
theorem Supported.free (held : Supported heap handles kept) {cell : Cell}
    (here : heap.cell? i = some cell) (out : ¬ kept i) :
    Supported (heap.put i none) handles kept := by
  have same : ∀ k, kept k → (heap.put i none).cell? k = heap.cell? k := by
    intro k hk
    rw [cell?_put heap i k none (lt_of_cell? here), if_neg]
    rintro rfl
    exact out hk
  intro k hk
  obtain ⟨old, there, support⟩ := held k hk
  refine ⟨old, (same k hk).trans there, support.imp id ?_⟩
  rintro ⟨j, other, hj, before, mem⟩
  exact ⟨j, other, hj, (same j hj).trans before, mem⟩

/-- Giving up shares keeps the accounts, and every supported set of cells. -/
theorem release_keeps (heap : Heap) (handles work later : List Nat)
    (acc : Accounts heap handles (work ++ later)) (held : Supported heap handles kept) :
    Accounts (heap.release work) handles later ∧ Supported (heap.release work) handles kept := by
  fun_induction release heap work with
  | case1 heap => exact ⟨acc, held⟩
  | case2 heap i work gone ih => exact ih (acc.skip gone) held
  | case3 heap i work cell here last ih =>
    have out : ¬ kept i := by
      intro hi
      have := held.owned acc here hi
      rw [List.cons_append, List.count_cons_self] at this
      omega
    refine ih ?_ (held.free here out)
    rw [List.append_assoc]
    exact acc.free here
  | case4 heap i work cell here more ih => exact ih (acc.lower here) (held.lower here)

/-! ### Counting -/

theorem cell?_addOwner (heap : Heap) (i k : Nat) :
    (heap.addOwner i).cell? k = if i = k then
      (heap.cell? k).map fun cell => { cell with owners := cell.owners + 1 } else heap.cell? k := by
  simp only [cell?, addOwner, Array.getElem?_modify]
  split
  · cases heap.places[k]? <;> rfl
  · rfl

theorem references_addOwner (heap : Heap) (i k : Nat) :
    (heap.addOwner i).references k = heap.references k := by
  unfold references addOwner
  congr 1
  apply List.ext_getElem?
  intro j
  simp only [List.getElem?_map, Array.getElem?_toList, Array.getElem?_modify]
  split
  · rcases heap.places[j]? with _ | _ | cell <;> rfl
  · rfl

theorem cell?_addOwners (heap : Heap) (owners : List Nat) (k : Nat) :
    (owners.foldl addOwner heap).cell? k =
      (heap.cell? k).map fun cell => { cell with owners := cell.owners + owners.count k } := by
  induction owners generalizing heap with
  | nil => simp
  | cons i owners ih =>
    rw [List.foldl_cons, ih, cell?_addOwner]
    by_cases h : i = k
    · subst h
      rw [if_pos rfl]
      cases heap.cell? i with
      | none => rfl
      | some cell =>
        simp only [Option.map_some, List.count_cons_self, Option.some.injEq]
        congr 1
        omega
    · rw [if_neg h, List.count_cons_of_ne h]

theorem references_addOwners (heap : Heap) (owners : List Nat) (k : Nat) :
    (owners.foldl addOwner heap).references k = heap.references k := by
  induction owners generalizing heap with
  | nil => rfl
  | cons i owners ih => rw [List.foldl_cons, ih, references_addOwner]

theorem cell?_addShares (heap : Heap) (shares : List (List Nat)) (k : Nat) :
    (shares.foldl (fun heap refs => refs.foldl addOwner heap) heap).cell? k =
      (heap.cell? k).map fun cell =>
        { cell with owners := cell.owners + (shares.map (List.count k)).sum } := by
  induction shares generalizing heap with
  | nil => simp
  | cons refs shares ih =>
    rw [List.foldl_cons, ih, cell?_addOwners]
    cases heap.cell? k with
    | none => rfl
    | some cell =>
      simp only [Option.map_some, List.map_cons, List.sum_cons, Option.some.injEq]
      congr 1
      omega

theorem references_addShares (heap : Heap) (shares : List (List Nat)) (k : Nat) :
    (shares.foldl (fun heap refs => refs.foldl addOwner heap) heap).references k =
      heap.references k := by
  induction shares generalizing heap with
  | nil => rfl
  | cons refs shares ih => rw [List.foldl_cons, ih, references_addOwners]

/-- In the heap that is counted, every cell has the one who counts as a further owner. -/
theorem cell?_counted (refs : Array (List Nat)) (handles : List Nat) (k : Nat) :
    (counted refs handles).cell? k = refs[k]?.map fun shares =>
      { owners := 1 + handles.count k + (refs.toList.map (List.count k)).sum, refs := shares } := by
  unfold counted
  rw [← Array.foldl_toList, cell?_addShares, cell?_addOwners]
  simp only [cell?, Array.getElem?_map]
  cases refs[k]? <;> rfl

theorem references_counted (refs : Array (List Nat)) (handles : List Nat) (k : Nat) :
    (counted refs handles).references k = (refs.toList.map (List.count k)).sum := by
  unfold counted
  rw [← Array.foldl_toList, references_addShares, references_addOwners]
  simp [references, countIn, Function.comp_def]

theorem counted_accounts (refs : Array (List Nat)) (handles : List Nat) :
    Accounts (counted refs handles) handles (List.range refs.size) := by
  intro i cell here
  rw [cell?_counted] at here
  obtain ⟨shares, -, rfl⟩ := Option.map_eq_some_iff.mp here
  rw [references_counted]
  have : (List.range refs.size).count i ≤ 1 := List.nodup_iff_count.mp List.nodup_range i
  dsimp only
  omega

/-- The cells that are on a handle or referred to from within their set are left by a census. -/
theorem census_keeps (refs : Array (List Nat)) (handles : List Nat) (kept : Nat → Prop)
    (held : ∀ i, kept i → i < refs.size ∧
      (i ∈ handles ∨ ∃ j shares, kept j ∧ refs[j]? = some shares ∧ i ∈ shares))
    (hi : kept i) : ((census refs handles).cell? i).isSome := by
  have start : Supported (counted refs handles) handles kept := by
    intro k hk
    obtain ⟨bound, support⟩ := held k hk
    have here := cell?_counted refs handles k
    rw [Array.getElem?_eq_getElem bound, Option.map_some] at here
    refine ⟨_, here, support.imp id ?_⟩
    rintro ⟨j, shares, hj, there, mem⟩
    have found := cell?_counted refs handles j
    rw [there, Option.map_some] at found
    exact ⟨j, _, hj, found, mem⟩
  have run : ∀ (rest : List Nat) (heap : Heap), Accounts heap handles rest →
      Supported heap handles kept → Supported (rest.foldl dropHandle heap) handles kept := by
    intro rest
    induction rest with
    | nil => exact fun _ _ kept => kept
    | cons k rest ih =>
      intro heap acc supported
      have next := release_keeps heap handles [k] rest acc supported
      exact ih _ next.1 next.2
  obtain ⟨cell, here, -⟩ := run _ _ (counted_accounts refs handles) start i hi
  unfold census
  rw [here]
  rfl

/-! ### What is left has an owner -/

/-- The owners of a cell are the handles on it, the references to it, and the shares still to be given
    up; it has one at least, and refers to what it did at first. -/
structure Balanced (refs : Array (List Nat)) (heap : Heap) (handles work : List Nat) : Prop where
  owners : ∀ i cell, heap.cell? i = some cell →
    cell.owners = handles.count i + heap.references i + work.count i
  owned : ∀ i cell, heap.cell? i = some cell → 0 < cell.owners
  same : ∀ i cell, heap.cell? i = some cell → refs[i]? = some cell.refs

namespace Balanced

variable {refs : Array (List Nat)}

theorem skip (bal : Balanced refs heap handles (i :: work)) (gone : heap.cell? i = none) :
    Balanced refs heap handles work where
  owners k cell here := by
    have total := bal.owners k cell here
    have ne : i ≠ k := by
      rintro rfl
      simp [gone] at here
    rwa [List.count_cons_of_ne ne] at total
  owned := bal.owned
  same := bal.same

theorem free (bal : Balanced refs heap handles (i :: work)) {cell : Cell}
    (here : heap.cell? i = some cell) :
    Balanced refs (heap.put i none) handles (cell.refs ++ work) := by
  have before : ∀ k other, (heap.put i none).cell? k = some other →
      i ≠ k ∧ heap.cell? k = some other := by
    intro k other there
    rw [cell?_put heap i k none (lt_of_cell? here)] at there
    split at there
    · cases there
    · next ne => exact ⟨ne, there⟩
  constructor
  · intro k other there
    obtain ⟨ne, old⟩ := before k other there
    have total := bal.owners k other old
    have moved := references_put here none k
    simp only [countIn, Option.map_none, Option.getD_none] at moved
    rw [List.count_cons_of_ne ne] at total
    rw [List.count_append]
    omega
  · exact fun k other there => bal.owned k other (before k other there).2
  · exact fun k other there => bal.same k other (before k other there).2

theorem lower (bal : Balanced refs heap handles (i :: work)) {cell : Cell}
    (here : heap.cell? i = some cell) (more : 1 < cell.owners) :
    Balanced refs (heap.put i (some { cell with owners := cell.owners - 1 })) handles work := by
  have before : ∀ k other, (heap.put i (some { cell with owners := cell.owners - 1 })).cell? k =
      some other → i = k ∧ other = { cell with owners := cell.owners - 1 } ∨
        i ≠ k ∧ heap.cell? k = some other := by
    intro k other there
    rw [cell?_put heap i k _ (lt_of_cell? here)] at there
    split at there
    · next same => exact .inl ⟨same, (Option.some.inj there).symm⟩
    · next ne => exact .inr ⟨ne, there⟩
  constructor
  · intro k other there
    have moved := references_put here (some { cell with owners := cell.owners - 1 }) k
    simp only [countIn, Option.map_some, Option.getD_some] at moved
    rcases before k other there with ⟨rfl, rfl⟩ | ⟨ne, old⟩
    · have total := bal.owners i cell here
      rw [List.count_cons_self] at total
      dsimp only
      omega
    · have total := bal.owners k other old
      rw [List.count_cons_of_ne ne] at total
      omega
  · intro k other there
    rcases before k other there with ⟨rfl, rfl⟩ | ⟨-, old⟩
    · exact Nat.sub_pos_of_lt more
    · exact bal.owned k other old
  · intro k other there
    rcases before k other there with ⟨rfl, rfl⟩ | ⟨-, old⟩
    · exact bal.same i cell here
    · exact bal.same k other old

theorem release {later : List Nat} (bal : Balanced refs heap handles (work ++ later)) :
    Balanced refs (heap.release work) handles later := by
  fun_induction Heap.release heap work with
  | case1 heap => exact bal
  | case2 heap i work gone ih => exact ih (bal.skip gone)
  | case3 heap i work cell here last ih =>
    refine ih ?_
    rw [List.append_assoc]
    exact bal.free here
  | case4 heap i work cell here more ih => exact ih (bal.lower here (Nat.lt_of_not_le more))

end Balanced

theorem exists_of_references {k : Nat} (some' : 0 < heap.references k) :
    ∃ j cell, heap.cell? j = some cell ∧ k ∈ cell.refs := by
  have place : ∀ places : List (Option Cell), 0 < (places.map (countIn k)).sum →
      ∃ place ∈ places, 0 < countIn k place := by
    intro places
    induction places with
    | nil => exact fun none => absurd none (Nat.lt_irrefl 0)
    | cons place rest ih =>
      intro sum
      rw [List.map_cons, List.sum_cons] at sum
      rcases Nat.eq_zero_or_pos (countIn k place) with none | here
      · obtain ⟨other, mem, there⟩ := ih (by omega)
        exact ⟨other, List.mem_cons_of_mem _ mem, there⟩
      · exact ⟨place, List.mem_cons_self, here⟩
  obtain ⟨found, mem, counts⟩ := place _ some'
  obtain ⟨j, there⟩ := List.mem_iff_getElem?.mp mem
  cases found with
  | none => exact absurd counts (Nat.lt_irrefl 0)
  | some cell =>
    refine ⟨j, cell, ?_, List.count_pos_iff.mp counts⟩
    rw [Array.getElem?_toList] at there
    rw [cell?, there]
    rfl

theorem counted_balanced (refs : Array (List Nat)) (handles : List Nat) :
    Balanced refs (counted refs handles) handles (List.range refs.size) := by
  have cell : ∀ i cell, (counted refs handles).cell? i = some cell → ∃ shares,
      refs[i]? = some shares ∧ cell = ⟨1 + handles.count i + (refs.toList.map (List.count i)).sum,
        shares⟩ := by
    intro i cell here
    rw [cell?_counted] at here
    obtain ⟨shares, there, rfl⟩ := Option.map_eq_some_iff.mp here
    exact ⟨shares, there, rfl⟩
  constructor
  · intro i found here
    obtain ⟨shares, there, rfl⟩ := cell i found here
    have bound : i < refs.size := (Array.getElem?_eq_some_iff.mp there).1
    have once : (List.range refs.size).count i = 1 := by
      have most : (List.range refs.size).count i ≤ 1 := List.nodup_iff_count.mp List.nodup_range i
      have some' : 0 < (List.range refs.size).count i :=
        List.count_pos_iff.mpr (List.mem_range.mpr bound)
      omega
    rw [references_counted, once]
    dsimp only
    omega
  · intro i found here
    obtain ⟨shares, -, rfl⟩ := cell i found here
    dsimp only
    omega
  · intro i found here
    obtain ⟨shares, there, rfl⟩ := cell i found here
    exact there

/-- Each cell left by a census is on a handle, or is referred to by one that is left. -/
theorem census_supports (refs : Array (List Nat)) (handles : List Nat) (i : Nat)
    (left : ((census refs handles).cell? i).isSome) : i < refs.size ∧
      (i ∈ handles ∨ ∃ j shares, ((census refs handles).cell? j).isSome ∧
        refs[j]? = some shares ∧ i ∈ shares) := by
  have run : ∀ (rest : List Nat) (heap : Heap), Balanced refs heap handles rest →
      Balanced refs (rest.foldl dropHandle heap) handles [] := by
    intro rest
    induction rest with
    | nil => exact fun _ bal => bal
    | cons k rest ih =>
      intro heap bal
      have next : Balanced refs heap handles ([k] ++ rest) := bal
      exact ih _ next.release
  have bal := run _ _ (counted_balanced refs handles)
  change Balanced refs (census refs handles) handles [] at bal
  obtain ⟨cell, here⟩ := Option.isSome_iff_exists.mp left
  refine ⟨(Array.getElem?_eq_some_iff.mp (bal.same i cell here)).1, ?_⟩
  have total := bal.owners i cell here
  have owned := bal.owned i cell here
  rw [List.count_nil] at total
  rcases Nat.eq_zero_or_pos (handles.count i) with none | onHandle
  · obtain ⟨j, other, there, mem⟩ := exists_of_references (show 0 < (census refs handles).references i
      by omega)
    exact .inr ⟨j, other.refs, by rw [there]; rfl, bal.same j other there, mem⟩
  · exact .inl (List.count_pos_iff.mp onHandle)

end Lineage.Heap

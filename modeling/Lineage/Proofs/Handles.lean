import Mathlib.Data.Fintype.EquivFin
import Mathlib.Logic.Relation
import Lineage.Proofs.Ownership

/-!
# Giving up a handle

A share that is on the work list is as good as a handle: it owns its cell until its turn comes. So the
owners of a cell are at any time the handles on it, the items of the list that name it, and the references
of the cells that are there (`Consistent`), and a cell that is named by any of them is there. Every turn
keeps that, whichever item it takes. In a heap without circles such a balance leaves no choice: the cells
that are there are those to which a way leads from a handle (`isSome_iff_reached`). So when one handle is
given up, just the cells leave to which no way leads from the others, and the order in which the work is
done makes no difference to the heap that is left.
-/

namespace Lineage.Heap

/-! ### Heaps in balance -/

/-- The number of owners of a cell; a cell that is not there has none. -/
def ownersOf (heap : Heap) (k : Nat) : Nat := ((heap.cell? k).map Cell.owners).getD 0

/-- The cells that a cell refers to, if it is there. -/
def refs? (heap : Heap) (k : Nat) : Option (List Nat) := (heap.cell? k).map Cell.refs

/-- A cell has as many owners as there are handles on it and references to it, and is there as long as it
    has any. -/
structure Consistent (heap : Heap) (handles : List Nat) : Prop where
  /-- In particular nothing names a cell that is not there, for that has no owners. -/
  owners : ∀ k, heap.ownersOf k = handles.count k + heap.references k
  /-- A cell that has lost its last owner has left the heap. -/
  owned : ∀ k cell, heap.cell? k = some cell → 0 < cell.owners

/-- The first cell is there and refers to the second one. -/
def Refers (heap : Heap) (j k : Nat) : Prop := ∃ refs, heap.refs? j = some refs ∧ k ∈ refs

/-- No cell refers to itself, directly or through others. -/
def Acyclic (heap : Heap) : Prop := ∀ k, ¬ Relation.TransGen heap.Refers k k

/-- From one of the handles a way leads to the cell. -/
def Reached (heap : Heap) (handles : List Nat) (k : Nat) : Prop :=
  ∃ j ∈ handles, Relation.ReflTransGen heap.Refers j k

/-- The number of references in the heap, repetitions included. -/
def shares (heap : Heap) : Nat :=
  (heap.places.toList.map fun place => (place.map fun cell => cell.refs.length).getD 0).sum

/-- The shares of a work list are given up one after the other, the last one of the list first. A cell
    that has other owners loses one of them. Any other cell leaves the heap, and the shares that it had
    are put at the end of the list. There is no rule for a share in a cell that has left before.
    `turns` counts the shares, `gone` names the cells that leave, in this order, and `after` is what is
    left of the heap. -/
inductive GivesUp : Heap → List Nat → Nat → List Nat → Heap → Prop
  | done {heap : Heap} : GivesUp heap [] 0 [] heap
  | shared {heap after : Heap} {work gone : List Nat} {turns i : Nat} {cell : Cell}
      (here : heap.cell? i = some cell) (more : 1 < cell.owners)
      (rest : GivesUp (heap.put i (some { cell with owners := cell.owners - 1 })) work turns gone after) :
      GivesUp heap (work ++ [i]) (turns + 1) gone after
  | last {heap after : Heap} {work gone : List Nat} {turns i : Nat} {cell : Cell}
      (here : heap.cell? i = some cell) (single : cell.owners = 1)
      (rest : GivesUp (heap.put i none) (work ++ cell.refs) turns gone after) :
      GivesUp heap (work ++ [i]) (turns + 1) (i :: gone) after

variable {heap after : Heap} {handles held work gone : List Nat} {i k turns : Nat} {cell : Cell}

theorem refs?_of_cell? (here : heap.cell? i = some cell) : heap.refs? i = some cell.refs := by
  rw [refs?, here, Option.map_some]

theorem isSome_refs? (heap : Heap) (k : Nat) : (heap.refs? k).isSome = (heap.cell? k).isSome :=
  Option.isSome_map

theorem ownersOf_put (here : heap.cell? i = some cell) (new : Option Cell) (k : Nat) :
    (heap.put i new).ownersOf k =
      if i = k then (new.map Cell.owners).getD 0 else heap.ownersOf k := by
  rw [ownersOf, cell?_put heap i k new (lt_of_cell? here)]
  split <;> rfl

theorem refs?_free (here : heap.cell? i = some cell) (k : Nat) :
    (heap.put i none).refs? k = if i = k then none else heap.refs? k := by
  rw [refs?, cell?_put heap i k none (lt_of_cell? here)]
  split <;> rfl

theorem refs?_lower (here : heap.cell? i = some cell) (k : Nat) :
    (heap.put i (some { cell with owners := cell.owners - 1 })).refs? k = heap.refs? k := by
  rw [refs?, cell?_put heap i k _ (lt_of_cell? here)]
  split
  · next same => rw [← same, refs?_of_cell? here, Option.map_some]
  · rfl

theorem size_places_put (heap : Heap) (i : Nat) (new : Option Cell) :
    (heap.put i new).places.size = heap.places.size := Array.size_setIfInBounds

theorem shares_put (here : heap.cell? i = some cell) (new : Option Cell) :
    (heap.put i new).shares + cell.refs.length =
      heap.shares + (new.map fun cell => cell.refs.length).getD 0 := by
  have := sum_map_set (fun place : Option Cell => (place.map fun cell => cell.refs.length).getD 0)
    (getElem?_of_cell? here) new
  simpa [shares, put] using this

theorem shares_free (here : heap.cell? i = some cell) :
    (heap.put i none).shares + cell.refs.length = heap.shares := shares_put here none

theorem shares_lower (here : heap.cell? i = some cell) :
    (heap.put i (some { cell with owners := cell.owners - 1 })).shares = heap.shares :=
  Nat.add_right_cancel (shares_put here (some { cell with owners := cell.owners - 1 }))

/-- What is referred to is counted. -/
theorem Refers.references_pos {j : Nat} (refers : heap.Refers j k) : 0 < heap.references k := by
  obtain ⟨refs, there, mem⟩ := refers
  obtain ⟨cell, here, rfl⟩ := Option.map_eq_some_iff.mp there
  exact Nat.lt_of_lt_of_le (List.count_pos_iff.mpr mem) (countIn_le here k)

namespace Consistent

theorem perm (con : heap.Consistent held) {others : List Nat} (same : held.Perm others) :
    heap.Consistent others where
  owners k := by rw [con.owners k, same.count_eq]
  owned := con.owned

/-- What has an owner is there. -/
theorem there (con : heap.Consistent held) (named : k ∈ held ∨ 0 < heap.references k) :
    ∃ cell, heap.cell? k = some cell := by
  have total := con.owners k
  cases found : heap.cell? k with
  | some cell => exact ⟨cell, rfl⟩
  | none =>
    rw [ownersOf, found] at total
    change 0 = _ at total
    rcases named with mem | some'
    · have := List.count_pos_iff.mpr mem
      omega
    · omega

/-- A cell has lost an owner, and the shares of `freed` are no references of its own any more. -/
theorem put (con : heap.Consistent (i :: held)) (here : heap.cell? i = some cell) (new : Option Cell)
    (freed : List Nat) (fewer : (new.map Cell.owners).getD 0 + 1 = cell.owners)
    (owned : ∀ left ∈ new, 0 < left.owners)
    (moved : ∀ k, countIn k new + freed.count k = cell.refs.count k) :
    (heap.put i new).Consistent (freed ++ held) where
  owners k := by
    have total := con.owners k
    have references := references_put here new k
    have shares := moved k
    rw [ownersOf_put here, List.count_append]
    by_cases same : i = k
    · subst same
      rw [ownersOf, here, Option.map_some, Option.getD_some, List.count_cons_self] at total
      rw [if_pos rfl]
      omega
    · rw [List.count_cons_of_ne same] at total
      rw [if_neg same]
      omega
  owned k other there := by
    rw [cell?_put heap i k new (lt_of_cell? here)] at there
    split at there
    · exact owned other there
    · exact con.owned k other there

/-- The last owner of a cell has been given up: its references are owners in their own right now. -/
theorem free (con : heap.Consistent (i :: held)) (here : heap.cell? i = some cell)
    (single : cell.owners = 1) : (heap.put i none).Consistent (cell.refs ++ held) :=
  con.put here none cell.refs single.symm (fun _ none' => by cases none') fun _ => Nat.zero_add _

/-- One of several owners of a cell has been given up. -/
theorem lower (con : heap.Consistent (i :: held)) (here : heap.cell? i = some cell)
    (more : 1 < cell.owners) :
    (heap.put i (some { cell with owners := cell.owners - 1 })).Consistent held := by
  refine con.put here _ [] (Nat.sub_add_cancel (Nat.le_of_lt more)) (fun left same => ?_) fun _ => rfl
  obtain rfl := Option.some.inj same
  exact Nat.sub_pos_of_lt more

end Consistent

/-- Some cells of the heap have left, and those that are there refer to what they did. -/
structure Retains (heap after : Heap) : Prop where
  size : after.places.size = heap.places.size
  refs : ∀ k refs, after.refs? k = some refs → heap.refs? k = some refs

namespace Retains

theorem refl (heap : Heap) : Retains heap heap := ⟨rfl, fun _ _ there => there⟩

theorem trans {between : Heap} (first : Retains heap between) (second : Retains between after) :
    Retains heap after where
  size := second.size.trans first.size
  refs k refs there := first.refs k refs (second.refs k refs there)

theorem free (here : heap.cell? i = some cell) : Retains heap (heap.put i none) where
  size := size_places_put heap i none
  refs k refs there := by
    rw [refs?_free here] at there
    split at there
    · cases there
    · exact there

theorem lower (here : heap.cell? i = some cell) :
    Retains heap (heap.put i (some { cell with owners := cell.owners - 1 })) where
  size := size_places_put heap i _
  refs k refs there := by rwa [refs?_lower here] at there

theorem refers {j : Nat} (ret : Retains heap after) (refers : after.Refers j k) : heap.Refers j k := by
  obtain ⟨refs, there, mem⟩ := refers
  exact ⟨refs, ret.refs j refs there, mem⟩

theorem acyclic (ret : Retains heap after) (acyclic : heap.Acyclic) : after.Acyclic :=
  fun k circle => acyclic k (Relation.TransGen.mono (fun _ _ => ret.refers) _ _ circle)

theorem reached (ret : Retains heap after) (way : after.Reached handles k) :
    heap.Reached handles k := by
  obtain ⟨j, mem, way⟩ := way
  exact ⟨j, mem, Relation.ReflTransGen.mono (fun _ _ => ret.refers) _ _ way⟩

end Retains

/-! ### Runs -/

theorem perm_work (work handles : List Nat) (i : Nat) :
    (work ++ [i] ++ handles).Perm (i :: (work ++ handles)) := by
  rw [List.append_assoc]
  exact List.perm_middle

theorem perm_refs (work refs handles : List Nat) :
    (refs ++ (work ++ handles)).Perm (work ++ refs ++ handles) := by
  rw [← List.append_assoc]
  exact List.perm_append_comm.append_right handles

/-- A run comes to its end: it takes up every reference just once. -/
theorem exists_givesUp (con : heap.Consistent (work ++ handles)) :
    ∃ turns gone after, GivesUp heap work turns gone after := by
  -- by the number of shares on the list and in the cells: every turn takes one away
  induction left : heap.shares + work.length generalizing heap work with
  | zero =>
    obtain rfl := List.eq_nil_of_length_eq_zero (Nat.eq_zero_of_add_eq_zero_left left)
    exact ⟨0, [], heap, .done⟩
  | succ left' ih =>
    obtain rfl | ⟨work, i, rfl⟩ := work.eq_nil_or_concat'
    · exact ⟨0, [], heap, .done⟩
    have con := con.perm (perm_work work handles i)
    obtain ⟨cell, here⟩ := con.there (.inl List.mem_cons_self)
    rw [List.length_append, List.length_singleton] at left
    rcases Nat.lt_or_ge 1 cell.owners with more | single
    · have same := shares_lower here
      obtain ⟨turns, gone, after, rest⟩ := ih (con.lower here more) (by omega)
      exact ⟨_, _, _, .shared here more rest⟩
    · have single : cell.owners = 1 := Nat.le_antisymm single (con.owned i cell here)
      have fewer := shares_free here
      obtain ⟨turns, gone, after, rest⟩ := ih ((con.free here single).perm (perm_refs work _ handles))
        (by rw [List.length_append]; omega)
      exact ⟨_, _, _, .last here single rest⟩

namespace GivesUp

theorem consistent (run : GivesUp heap work turns gone after)
    (con : heap.Consistent (work ++ handles)) : after.Consistent handles := by
  induction run with
  | done => exact con
  | shared here more rest ih =>
    exact ih ((con.perm (perm_work _ handles _)).lower here more)
  | last here single rest ih =>
    exact ih (((con.perm (perm_work _ handles _)).free here single).perm (perm_refs _ _ handles))

theorem retains (run : GivesUp heap work turns gone after) : Retains heap after := by
  induction run with
  | done => exact .refl _
  | shared here more rest ih => exact (Retains.lower here).trans ih
  | last here single rest ih => exact (Retains.free here).trans ih

/-- As many turns are taken as there are shares on the list at first and in the cells that leave. -/
theorem turns_add_shares (run : GivesUp heap work turns gone after) :
    turns + after.shares = heap.shares + work.length := by
  induction run with
  | done => simp
  | shared here more rest ih =>
    rw [shares_lower here] at ih
    rw [List.length_append, List.length_singleton]
    omega
  | last here single rest ih =>
    have fewer := shares_free here
    rw [List.length_append] at ih ⊢
    rw [List.length_singleton]
    omega

/-- The cells that leave were there and leave once; all other cells stay, and refer to what they did. -/
theorem frame (run : GivesUp heap work turns gone after) :
    gone.Nodup ∧ (∀ k ∈ gone, (heap.refs? k).isSome) ∧
      ∀ k, after.refs? k = if k ∈ gone then none else heap.refs? k := by
  induction run with
  | done => simp
  | shared here more rest ih =>
    obtain ⟨once, were, left⟩ := ih
    refine ⟨once, fun k mem => ?_, fun k => ?_⟩
    · rw [← refs?_lower here]
      exact were k mem
    · rw [left k, refs?_lower here]
  | @last heap after work gone turns i cell here single rest ih =>
    obtain ⟨once, were, left⟩ := ih
    have other : ∀ k ∈ gone, i ≠ k ∧ (heap.refs? k).isSome := by
      intro k mem
      have there := were k mem
      rw [refs?_free here] at there
      split at there
      · cases there
      · next ne => exact ⟨ne, there⟩
    refine ⟨List.nodup_cons.mpr ⟨fun mem => (other i mem).1 rfl, once⟩, ?_, fun k => ?_⟩
    · refine List.forall_mem_cons.mpr ⟨?_, fun k mem => (other k mem).2⟩
      rw [refs?_of_cell? here]
      rfl
    · rw [left k, refs?_free here]
      by_cases same : i = k
      · simp [same]
      · simp [same, Ne.symm same]

end GivesUp

/-! ### What is left -/

theorem Refers.lt {j : Nat} (refers : heap.Refers j k) : j < heap.places.size := by
  obtain ⟨refs, there, -⟩ := refers
  obtain ⟨cell, here, -⟩ := Option.map_eq_some_iff.mp there
  exact lt_of_cell? here

/-- Without circles, from every cell back to those that refer to it, one comes to an end. -/
theorem Acyclic.wellFounded (acyclic : heap.Acyclic) : WellFounded heap.Refers := by
  have inside : WellFounded fun a b : Fin heap.places.size =>
      Relation.TransGen heap.Refers a.val b.val := by
    have : IsTrans (Fin heap.places.size) fun a b => Relation.TransGen heap.Refers a.val b.val :=
      ⟨fun _ _ _ => Relation.TransGen.trans⟩
    have : Std.Irrefl fun a b : Fin heap.places.size =>
        Relation.TransGen heap.Refers a.val b.val := ⟨fun a => acyclic a.val⟩
    exact Finite.wellFounded_of_trans_of_irrefl _
  have placed : ∀ a : Fin heap.places.size, Acc heap.Refers a.val := by
    intro a
    induction a using inside.induction with
    | h b ih => exact ⟨_, fun j refers => ih ⟨j, refers.lt⟩ (.single refers)⟩
  exact ⟨fun k => ⟨_, fun j refers => placed ⟨j, refers.lt⟩⟩⟩

/-- Where each cell refers only to earlier ones there are no circles. -/
theorem acyclic_of_earlier (earlier : ∀ j k, heap.Refers j k → k < j) : heap.Acyclic := by
  have below : ∀ j k, Relation.TransGen heap.Refers j k → k < j := by
    intro j k way
    induction way with
    | single refers => exact earlier _ _ refers
    | tail _ refers ih => exact (earlier _ _ refers).trans ih
  exact fun k circle => Nat.lt_irrefl k (below k k circle)

namespace Consistent

/-- In a heap in balance and without circles a way leads to every cell from a handle. -/
theorem reached (con : heap.Consistent handles) (acyclic : heap.Acyclic)
    (here : heap.cell? k = some cell) : heap.Reached handles k := by
  -- from each cell back to those that refer to it
  induction k using acyclic.wellFounded.induction generalizing cell with
  | h k ih =>
    have total := con.owners k
    have owned := con.owned k cell here
    rw [ownersOf, here, Option.map_some, Option.getD_some] at total
    rcases Nat.eq_zero_or_pos (handles.count k) with none' | onHandle
    · obtain ⟨j, other, there, mem⟩ := exists_of_references (show 0 < heap.references k by omega)
      have refers : heap.Refers j k := ⟨other.refs, refs?_of_cell? there, mem⟩
      obtain ⟨first, handle, way⟩ := ih j refers there
      exact ⟨first, handle, way.tail refers⟩
    · exact ⟨k, List.count_pos_iff.mp onHandle, .refl⟩

/-- Of a heap that is in balance again, just the cells are left to which a way led from a handle. -/
theorem isSome_iff_reached (con : after.Consistent handles) (ret : Retains heap after)
    (acyclic : heap.Acyclic) : (after.refs? k).isSome ↔ heap.Reached handles k := by
  rw [isSome_refs?, Option.isSome_iff_exists]
  constructor
  · rintro ⟨cell, here⟩
    exact ret.reached (con.reached (ret.acyclic acyclic) here)
  · rintro ⟨first, handle, way⟩
    induction way with
    | refl => exact con.there (.inl handle)
    | tail _ refers ih =>
      obtain ⟨refs, before, mem⟩ := refers
      obtain ⟨cell, now⟩ := ih
      have same := ret.refs _ _ (refs?_of_cell? now)
      rw [before] at same
      have kept : after.Refers _ _ := ⟨refs, (refs?_of_cell? now).trans same.symm, mem⟩
      exact con.there (.inr kept.references_pos)

theorem refs?_of_reached (con : after.Consistent handles) (ret : Retains heap after)
    (acyclic : heap.Acyclic) (way : heap.Reached handles k) : after.refs? k = heap.refs? k := by
  obtain ⟨refs, here⟩ := Option.isSome_iff_exists.mp ((con.isSome_iff_reached ret acyclic).mpr way)
  rw [here, ret.refs k refs here]

theorem refs?_of_not_reached (con : after.Consistent handles) (ret : Retains heap after)
    (acyclic : heap.Acyclic) (none' : ¬ heap.Reached handles k) : after.refs? k = none :=
  Option.not_isSome_iff_eq_none.mp (mt (con.isSome_iff_reached ret acyclic).mp none')

end Consistent

theorem getElem?_places (heap : Heap) {j : Nat} (inside : j < heap.places.size) :
    heap.places[j]? = some (heap.cell? j) := by
  rw [cell?, Array.getElem?_eq_getElem inside, Option.getD_some]

/-- References are counted by what the cells refer to. -/
theorem references_congr {other : Heap} (size : heap.places.size = other.places.size)
    (same : ∀ k, heap.refs? k = other.refs? k) (k : Nat) : heap.references k = other.references k := by
  unfold references
  congr 1
  apply List.ext_getElem?
  intro j
  simp only [List.getElem?_map, Array.getElem?_toList]
  rcases Nat.lt_or_ge j heap.places.size with inside | beyond
  · have counts : countIn k (heap.cell? j) = countIn k (other.cell? j) := by
      have := congrArg (fun refs => (refs.map (List.count k)).getD 0) (same j)
      simpa only [countIn, refs?, Option.map_map, Function.comp_def] using this
    rw [getElem?_places heap inside, getElem?_places other (size ▸ inside), Option.map_some,
      Option.map_some, counts]
  · rw [Array.getElem?_eq_none beyond, Array.getElem?_eq_none (size ▸ beyond)]

/-- What a cell refers to and how many owners it has is all there is to it. -/
theorem cell?_congr {other : Heap} (refs : heap.refs? k = other.refs? k)
    (owners : heap.ownersOf k = other.ownersOf k) : heap.cell? k = other.cell? k := by
  simp only [refs?, ownersOf] at refs owners
  cases here : heap.cell? k with
  | none =>
    rw [here] at refs
    exact (Option.map_eq_none_iff.mp refs.symm).symm
  | some cell =>
    rw [here] at refs owners
    obtain ⟨found, there, same⟩ := Option.map_eq_some_iff.mp refs.symm
    rw [there] at owners ⊢
    cases cell
    cases found
    simp_all

/-- However a heap comes into balance again, the same is left of it. -/
theorem eq_of_consistent {other : Heap} (acyclic : heap.Acyclic) (ret : Retains heap after)
    (con : after.Consistent handles) (otherRet : Retains heap other)
    (otherCon : other.Consistent handles) : after = other := by
  have size : after.places.size = other.places.size := ret.size.trans otherRet.size.symm
  have refs : ∀ k, after.refs? k = other.refs? k := by
    intro k
    by_cases way : heap.Reached handles k
    · rw [con.refs?_of_reached ret acyclic way, otherCon.refs?_of_reached otherRet acyclic way]
    · rw [con.refs?_of_not_reached ret acyclic way,
        otherCon.refs?_of_not_reached otherRet acyclic way]
  have owners : ∀ k, after.ownersOf k = other.ownersOf k := by
    intro k
    rw [con.owners k, otherCon.owners k, references_congr size refs]
  refine congrArg Heap.mk (Array.ext_getElem? fun j => ?_)
  rcases Nat.lt_or_ge j after.places.size with inside | beyond
  · rw [getElem?_places after inside, getElem?_places other (size ▸ inside),
      cell?_congr (refs j) (owners j)]
  · rw [Array.getElem?_eq_none beyond, Array.getElem?_eq_none (size ▸ beyond)]

/-- Giving up shares leaves a heap in balance with the handles that are left. -/
theorem release_consistent (con : heap.Consistent (work ++ handles)) :
    (heap.release work).Consistent handles ∧ Retains heap (heap.release work) := by
  fun_induction release heap work with
  | case1 heap => exact ⟨con, .refl heap⟩
  | case2 heap i work missing ih =>
    obtain ⟨cell, here⟩ := con.there (.inl List.mem_cons_self)
    rw [missing] at here
    cases here
  | case3 heap i work cell here last ih =>
    have single : cell.owners = 1 := Nat.le_antisymm last (con.owned i cell here)
    have left : (heap.put i none).Consistent (cell.refs ++ work ++ handles) := by
      rw [List.append_assoc]
      exact Consistent.free con here single
    exact (ih left).imp_right (Retains.free here).trans
  | case4 heap i work cell here more ih =>
    exact (ih (Consistent.lower con here (Nat.lt_of_not_le more))).imp_right
      (Retains.lower here).trans

/-! ### Giving up one handle -/

/-- What it comes to that a handle on `i` is given up, in `turns` turns in which the cells of `gone`
    leave, where `handles` are the others. -/
structure Frees (heap : Heap) (i : Nat) (handles : List Nat) (turns : Nat) (gone : List Nat)
    (after : Heap) : Prop where
  eq_dropHandle : after = heap.dropHandle i
  /-- Besides the handle, each reference of a cell that leaves takes a turn, and takes one only. -/
  turns_eq : turns + after.shares = heap.shares + 1
  /-- No cell leaves twice. -/
  once : gone.Nodup
  /-- Just the cells leave to which the handle was the last to lead. -/
  mem_iff : ∀ k, k ∈ gone ↔ heap.Reached (i :: handles) k ∧ ¬ heap.Reached handles k
  /-- All other cells are there as before, but for the number of their owners. -/
  refs_eq : ∀ k, after.refs? k = if k ∈ gone then none else heap.refs? k
  consistent : after.Consistent handles

/-- In a heap in balance and without circles, giving up a handle comes to an end, no cell is named after
    it has left, and just those cells leave to which no way leads any more. -/
theorem dropHandle_frees_unreached (con : heap.Consistent (i :: handles)) (acyclic : heap.Acyclic) :
    (∃ turns gone after, GivesUp heap [i] turns gone after) ∧
      ∀ turns gone after, GivesUp heap [i] turns gone after →
        Frees heap i handles turns gone after := by
  have work : heap.Consistent ([i] ++ handles) := con
  refine ⟨exists_givesUp work, fun turns gone after run => ?_⟩
  have settled := run.consistent work
  obtain ⟨once, were, left⟩ := run.frame
  obtain ⟨released, retains⟩ := release_consistent work
  refine ⟨?_, run.turns_add_shares, once, fun k => ?_, left, settled⟩
  · -- `release` takes up the shares in another order, which makes no difference
    exact eq_of_consistent acyclic run.retains settled retains released
  · rw [← con.isSome_iff_reached (.refl heap) acyclic,
      ← settled.isSome_iff_reached run.retains acyclic, left k]
    constructor
    · intro mem
      exact ⟨were k mem, by simp [mem]⟩
    · rintro ⟨there, missing⟩
      by_contra stays
      rw [if_neg stays] at missing
      exact missing there

/-! ### A cell that is referred to twice -/

namespace Doubled

/-- Cell 2 refers to cell 1 twice, and that one to cell 0 twice, which cell 3 refers to as well. -/
def cells : Heap :=
  ⟨#[some ⟨4, []⟩, some ⟨2, [0, 0]⟩, some ⟨1, [1, 0, 1]⟩, some ⟨1, [0]⟩]⟩

theorem consistent : cells.Consistent [2, 3] where
  owners k := by
    obtain _ | _ | _ | _ | k := k
    case succ.succ.succ.succ => simp [ownersOf, cell?, references, countIn, cells]
    all_goals rfl
  owned k cell here := by
    obtain _ | _ | _ | _ | k := k
    case succ.succ.succ.succ => simp [cell?, cells] at here
    all_goals
      cases here
      decide

theorem acyclic : cells.Acyclic := by
  refine acyclic_of_earlier fun j k ⟨refs, there, mem⟩ => ?_
  obtain _ | _ | _ | _ | j := j
  case succ.succ.succ.succ => simp [refs?, cell?, cells] at there
  all_goals
    cases there
    simp only [List.mem_cons, List.not_mem_nil, or_false] at mem
  all_goals omega

/-- The last item of the list is taken up first: cell 1 loses one owner, cell 0 loses another one, and
    then cell 1 leaves. -/
theorem givesUp : GivesUp cells [2] 6 [2, 1] ⟨#[some ⟨1, []⟩, none, none, some ⟨1, [0]⟩]⟩ := by
  change GivesUp _ ([] ++ [2]) _ _ _
  refine .last rfl rfl ?_
  change GivesUp _ ([1, 0] ++ [1]) _ _ _
  refine .shared rfl (by decide) ?_
  change GivesUp _ ([1] ++ [0]) _ _ _
  refine .shared rfl (by decide) ?_
  change GivesUp _ ([] ++ [1]) _ _ _
  refine .last rfl rfl ?_
  change GivesUp _ ([0] ++ [0]) _ _ _
  refine .shared rfl (by decide) ?_
  change GivesUp _ ([] ++ [0]) _ _ _
  refine .shared rfl (by decide) ?_
  exact .done

theorem dropHandle_frees_unreached_two :
    cells.Consistent [2, 3] ∧ cells.Acyclic ∧
      GivesUp cells [2] 6 [2, 1] ⟨#[some ⟨1, []⟩, none, none, some ⟨1, [0]⟩]⟩ ∧
      Frees cells 2 [3] 6 [2, 1] ⟨#[some ⟨1, []⟩, none, none, some ⟨1, [0]⟩]⟩ :=
  ⟨consistent, acyclic, givesUp,
    (dropHandle_frees_unreached consistent acyclic).2 6 [2, 1] _ givesUp⟩

end Doubled

end Lineage.Heap

/-!
# Counted ownership

A heap of numbered cells in which every cell knows how many owners it has: handles from outside, and
the other cells that refer to it, each as often as it does. `release` takes owners away one by one; a
cell that loses its last owner leaves the heap, and with it goes its share in the cells it refers to.
The work list holds one item for each share still to be given up, so that long chains need no
recursion.

Cells that refer to each other in a circle keep each other; nothing looks for them.
-/

namespace Lineage

/-- One cell with the number of its owners and the cells it refers to, repetitions included. -/
structure Cell where
  owners : Nat
  refs : List Nat
  deriving DecidableEq, Repr

/-- The cells by number; one that has been released leaves its place empty. -/
structure Heap where
  places : Array (Option Cell)
  deriving DecidableEq, Repr

namespace Heap

def cell? (heap : Heap) (i : Nat) : Option Cell := heap.places[i]?.getD none

/-- The number of cells not yet released. -/
def size (heap : Heap) : Nat := heap.places.countP Option.isSome

/-- What place `i` holds from now on; a place beyond the last one stays empty. -/
def put (heap : Heap) (i : Nat) (cell : Option Cell) : Heap :=
  ⟨heap.places.setIfInBounds i cell⟩

theorem lt_of_cell? {heap : Heap} {i : Nat} {cell : Cell} (h : heap.cell? i = some cell) :
    i < heap.places.size := by
  rcases Nat.lt_or_ge i heap.places.size with hi | hi
  · exact hi
  · simp [cell?, Array.getElem?_eq_none hi] at h

theorem cell?_put (heap : Heap) (i j : Nat) (cell : Option Cell) (hi : i < heap.places.size) :
    (heap.put i cell).cell? j = if i = j then cell else heap.cell? j := by
  simp only [cell?, put, Array.getElem?_setIfInBounds]
  split <;> simp_all

theorem size_put {heap : Heap} {i : Nat} {old : Cell} (h : heap.cell? i = some old)
    (cell : Option Cell) : (heap.put i cell).size + 1 = heap.size + if cell.isSome then 1 else 0 := by
  have hi := lt_of_cell? h
  have held : heap.places[i] = some old := by simpa [cell?, hi] using h
  have : 0 < heap.places.countP Option.isSome :=
    Array.countP_pos_iff.mpr ⟨_, Array.getElem_mem hi, by simp [held]⟩
  simp only [size, put, Array.setIfInBounds, hi, ↓reduceDIte, Array.countP_set, held,
    Option.isSome_some, ↓reduceIte]
  omega

/-- Gives up one share in each cell of the list, and all that follows from it. -/
def release (heap : Heap) : List Nat → Heap
  | [] => heap
  | i :: work =>
      match _h : heap.cell? i with
      | none => release heap work
      | some cell =>
          if cell.owners ≤ 1 then release (heap.put i none) (cell.refs ++ work)
          else release (heap.put i (some { cell with owners := cell.owners - 1 })) work
  termination_by work => (heap.size, work.length)
  decreasing_by
    · exact Prod.Lex.right _ (by simp)
    · have := size_put _h none
      exact Prod.Lex.left _ _ (by simp at this; omega)
    · have := size_put _h (some { cell with owners := cell.owners - 1 })
      rw [show (heap.put i _).size = heap.size by simpa using this]
      exact Prod.Lex.right _ (by simp)

/-- Gives up one outside handle. -/
def dropHandle (heap : Heap) (i : Nat) : Heap := heap.release [i]

/-- One more owner for a cell. -/
def addOwner (heap : Heap) (i : Nat) : Heap :=
  ⟨heap.places.modify i (Option.map fun cell => { cell with owners := cell.owners + 1 })⟩

/-- The heap of the cells that refer to `refs`, in which each is owned by the handles, the cells that
    refer to it, and the one who does the counting. -/
def counted (refs : Array (List Nat)) (handles : List Nat) : Heap :=
  refs.foldl (fun heap shares => shares.foldl addOwner heap)
    (handles.foldl addOwner ⟨refs.map fun shares => some { owners := 1, refs := shares }⟩)

/-- The cells that are left once all have been released that the `handles` and the cells left do not
    own. -/
def census (refs : Array (List Nat)) (handles : List Nat) : Heap :=
  (List.range refs.size).foldl dropHandle (counted refs handles)

example : (census #[[1], [], [1]] [2]).places.map Option.isSome = #[false, true, true] := by cbv

example : (census #[[1], [0], [2, 3], []] []).places.map Option.isSome = #[true, true, true, true] := by
  cbv

end Heap

end Lineage

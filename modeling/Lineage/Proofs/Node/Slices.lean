import Mathlib
import Lineage.Proofs.Slice

/-!
# Slices of graphs as they are made

Nodes are made one after the other, each with a number of its own and from nodes that were there before
(`Built`). In such a graph a slice is the list of all nodes that are reached from its roots, oldest
first. So it depends on the set of roots only, it is the union of the slices of the single roots, and
it is its own slice; and being computed from one another orders the nodes.
-/

namespace Lineage.Node

variable {V : Type}

/-- The nodes of a graph in the order in which they were made, the latest first: each has a higher
    number than the earlier ones and is made from some of them. -/
inductive Built : List (Node V) → Prop
  | nil : Built []
  | cons {node : Node V} {made : List (Node V)} (earlier : Built made)
      (later : ∀ a ∈ made, a.seq < node.seq) (origins : ∀ o ∈ node.origins, o ∈ made) :
      Built (node :: made)

namespace Built

variable {made : List (Node V)}

theorem unique (built : Built made) : ∀ a ∈ made, ∀ b ∈ made, a.seq = b.seq → a = b := by
  induction built with
  | nil => simp
  | cons earlier later origins ih =>
    intro a ha b hb same
    rcases List.mem_cons.mp ha with newA | oldA
    · rcases List.mem_cons.mp hb with newB | oldB
      · rw [newA, newB]
      · have := later b oldB
        rw [← newA] at this
        omega
    · rcases List.mem_cons.mp hb with newB | oldB
      · have := later a oldA
        rw [← newB] at this
        omega
      · exact ih a oldA b oldB same

theorem origin_mem (built : Built made) : ∀ a ∈ made, ∀ o ∈ a.origins, o ∈ made := by
  induction built with
  | nil => simp
  | cons earlier later origins ih =>
    intro a ha o used
    rcases List.mem_cons.mp ha with rfl | ha
    · exact List.mem_cons_of_mem _ (origins o used)
    · exact List.mem_cons_of_mem _ (ih a ha o used)

/-- A node is younger than those it is made from. -/
theorem origin_lt (built : Built made) : ∀ a ∈ made, ∀ o ∈ a.origins, o.seq < a.seq := by
  induction built with
  | nil => simp
  | cons earlier later origins ih =>
    intro a ha o used
    rcases List.mem_cons.mp ha with rfl | ha
    · exact later o (origins o used)
    · exact ih a ha o used

theorem told (built : Built made) : Told (· ∈ made) where
  closed := built.origin_mem
  unique a b ha hb same := built.unique a ha b hb same

end Built

/-! ### What is reached -/

theorem Reached.trans {roots : List (Node V)} {a b : Node V} (first : Reached roots a)
    (second : Reached [a] b) : Reached roots b := by
  induction second with
  | root mem => exact List.mem_singleton.mp mem ▸ first
  | origin _ used ih => exact .origin ih used

/-- What is reached from some roots is reached from one of them. -/
theorem Reached.from_one {roots : List (Node V)} {a : Node V} (h : Reached roots a) :
    ∃ root ∈ roots, Reached [root] a := by
  induction h with
  | root mem => exact ⟨_, mem, .root List.mem_cons_self⟩
  | origin _ used ih =>
    obtain ⟨root, mem, reached⟩ := ih
    exact ⟨root, mem, .origin reached used⟩

theorem Reached.mem {made roots : List (Node V)} (built : Built made)
    (inside : ∀ root ∈ roots, root ∈ made) {a : Node V} (h : Reached roots a) : a ∈ made :=
  built.told.reached inside h

/-- What a node is computed from is older than the node, the node itself apart. -/
theorem Reached.eq_or_lt {made : List (Node V)} (built : Built made) {a b : Node V} (ha : a ∈ made)
    (h : Reached [a] b) : b = a ∨ b.seq < a.seq := by
  have inside : ∀ root ∈ [a], root ∈ made := fun root mem => List.mem_singleton.mp mem ▸ ha
  induction h with
  | root mem => exact .inl (List.mem_singleton.mp mem)
  | @origin node origin reached used ih =>
    have younger := built.origin_lt node (reached.mem built inside) origin used
    rcases ih with rfl | below
    · exact .inr younger
    · exact .inr (younger.trans below)

/-! ### Passes of the loop -/

/-- One pass of the loop that finds a slice: a node is taken from the work list and, unless it has been
    found before, its origins are put there. -/
def pass : Std.TreeMap Nat (Node V) × List (Node V) → Std.TreeMap Nat (Node V) × List (Node V)
  | (found, []) => (found, [])
  | (found, node :: rest) =>
      if found.contains node.seq then (found, rest)
      else (found.insert node.seq node, node.origins ++ rest)

/-- How often nodes are used as origins by those found. -/
def uses (found : Std.TreeMap Nat (Node V)) : Nat :=
  (found.toList.map fun entry => entry.2.origins.length).sum

theorem toList_insert_new {found : Std.TreeMap Nat (Node V)} {node : Node V}
    (new : ¬ found.contains node.seq = true) :
    (found.insert node.seq node).toList.Perm ((node.seq, node) :: found.toList) := by
  have kept : found.toList.filter (fun entry => decide ¬ (node.seq == entry.1) = true) =
      found.toList := by
    rw [List.filter_eq_self]
    rintro ⟨k, a⟩ mem
    have there := Std.TreeMap.mem_toList_iff_getElem?_eq_some.mp mem
    have other : node.seq ≠ k := by
      rintro rfl
      rw [Std.TreeMap.contains_eq_isSome_getElem?, there] at new
      exact new rfl
    simpa using other
  have entries := Std.TreeMap.toList_insert_perm (t := found) (k := node.seq) (v := node)
  rwa [kept] at entries

theorem uses_insert {found : Std.TreeMap Nat (Node V)} {node : Node V}
    (new : ¬ found.contains node.seq = true) :
    uses (found.insert node.seq node) = node.origins.length + uses found := by
  have total := ((toList_insert_new new).map fun entry => entry.2.origins.length).sum_nat
  rw [List.map_cons, List.sum_cons] at total
  exact total

/-- The work list is empty after one pass for each node on it and for each origin of the nodes that
    are found. -/
theorem pass_gather (found : Std.TreeMap Nat (Node V)) (work : List (Node V)) :
    ∃ n, n + uses found = work.length + uses (gather found work) ∧
      pass^[n] (found, work) = (gather found work, []) := by
  fun_induction gather found work with
  | case1 found => exact ⟨0, rfl, rfl⟩
  | case2 found node rest seen ih =>
    obtain ⟨n, count, ends⟩ := ih
    refine ⟨n + 1, ?_, ?_⟩
    · rw [List.length_cons]
      omega
    · rw [Function.iterate_succ_apply, pass, if_pos seen]
      exact ends
  | case3 found node rest unseen ih =>
    obtain ⟨n, count, ends⟩ := ih
    rw [uses_insert unseen, List.length_append] at count
    refine ⟨n + 1, ?_, ?_⟩
    · rw [List.length_cons]
      omega
    · rw [Function.iterate_succ_apply, pass, if_neg unseen]
      exact ends

theorem pass_slice (roots : List (Node V)) :
    pass^[roots.length + ((slice roots).map (·.origins.length)).sum] ({}, roots) =
      (gather {} roots, []) := by
  obtain ⟨n, count, ends⟩ := pass_gather {} roots
  have none : uses ({} : Std.TreeMap Nat (Node V)) = 0 := rfl
  have all : uses (gather {} roots) = ((slice roots).map (·.origins.length)).sum := by
    rw [uses, slice, List.map_map]
    rfl
  rw [none, all] at count
  rw [← count]
  exact ends

/-! ### The slice as a sorted list -/

/-- The first node is older than the second. -/
def Older (a b : Node V) : Prop := a.seq < b.seq

instance : Std.Antisymm (Older (V := V)) := ⟨fun _ _ below above => absurd below (Nat.lt_asymm above)⟩

instance : Std.Irrefl (Older (V := V)) := ⟨fun a => Nat.lt_irrefl a.seq⟩

/-- Every node is found under its own number. -/
theorem seq_of_gather (found : Std.TreeMap Nat (Node V)) (work : List (Node V))
    (known : ∀ (k : Nat) (a : Node V), found[k]? = some a → a.seq = k) {k : Nat} {a : Node V}
    (there : (gather found work)[k]? = some a) : a.seq = k := by
  fun_induction gather found work with
  | case1 found => exact known k a there
  | case2 found node rest seen ih => exact ih known there
  | case3 found node rest unseen ih =>
    refine ih (fun j b bound => ?_) there
    rw [Std.TreeMap.getElem?_insert] at bound
    split at bound
    · next same =>
      cases bound
      exact Nat.compare_eq_eq.mp same
    · exact known j b bound

theorem seq_of_gather_empty {roots : List (Node V)} {k : Nat} {a : Node V}
    (there : (gather {} roots)[k]? = some a) : a.seq = k := by
  refine seq_of_gather {} roots (fun j b nothing => ?_) there
  rw [Std.TreeMap.getElem?_emptyc] at nothing
  cases nothing

/-- A slice begins with its oldest nodes. -/
theorem slice_older (roots : List (Node V)) : (slice roots).Pairwise Older := by
  have number : ∀ entry ∈ (gather {} roots).toList, entry.2.seq = entry.1 := fun entry mem =>
    seq_of_gather_empty (Std.TreeMap.mem_toList_iff_getElem?_eq_some.mp mem)
  refine List.pairwise_map.mpr ?_
  refine Std.TreeMap.ordered_keys_toList.imp_of_mem fun {first second} memFirst memSecond below => ?_
  rw [Older, number first memFirst, number second memSecond]
  exact Nat.compare_eq_lt.mp below

section

variable {made roots : List (Node V)} (built : Built made) (inside : ∀ root ∈ roots, root ∈ made)

include built inside

theorem mem_slice_built (a : Node V) : a ∈ slice roots ↔ Reached roots a :=
  mem_slice_iff built.told inside

/-- Roots that reach the same nodes have the same slice. -/
theorem slice_congr {others : List (Node V)} (inside' : ∀ root ∈ others, root ∈ made)
    (same : ∀ a, Reached others a ↔ Reached roots a) : slice others = slice roots := by
  refine (slice_older others).eq_of_mem_iff (slice_older roots) fun a => ?_
  rw [mem_slice_iff built.told inside', mem_slice_iff built.told inside]
  exact same a

theorem slice_of_mem_iff {others : List (Node V)} (same : ∀ a, a ∈ others ↔ a ∈ roots) :
    slice others = slice roots := by
  refine slice_congr built inside (fun root mem => inside root ((same root).mp mem)) fun a => ?_
  exact ⟨.mono fun root mem => .root ((same root).mp mem),
    .mono fun root mem => .root ((same root).mpr mem)⟩

/-- A slice is closed, so that there is nothing more in its own slice. -/
theorem slice_slice : slice (slice roots) = slice roots := by
  have member := mem_slice_built built inside
  refine slice_congr built inside (fun a mem => ((member a).mp mem).mem built inside) fun a => ?_
  constructor
  · exact .mono fun b mem => (member b).mp mem
  · exact fun reached => .root ((member a).mpr reached)

/-- The origins of a node of the slice stand before it. -/
theorem origin_before {before after : List (Node V)} {a o : Node V}
    (split : slice roots = before ++ a :: after) (used : o ∈ a.origins) : o ∈ before := by
  have member := mem_slice_built built inside
  have reached : Reached roots a := (member a).mp (by simp [split])
  have there : o ∈ slice roots := (member o).mpr (.origin reached used)
  have below : o.seq < a.seq := built.origin_lt a (reached.mem built inside) o used
  have sorted := slice_older roots
  rw [split] at there sorted
  rcases List.mem_append.mp there with before | rest
  · exact before
  · -- what comes after the node is younger
    have := (List.pairwise_append.mp sorted).2.1
    rcases List.mem_cons.mp rest with rfl | later
    · omega
    · have : a.seq < o.seq := List.rel_of_pairwise_cons this later
      omega

open Classical in
/-- The union of the slices of the single roots, in order. -/
theorem slice_eq_union : slice roots =
    (roots.flatMap fun root => slice [root]).dedup.mergeSort fun a b => a.seq ≤ b.seq := by
  have single : ∀ root ∈ roots, ∀ a, a ∈ slice [root] ↔ Reached [root] a := fun root mem a =>
    mem_slice_iff built.told fun other one => List.mem_singleton.mp one ▸ inside root mem
  have union : ∀ a, a ∈ (roots.flatMap fun root => slice [root]) ↔ Reached roots a := by
    intro a
    rw [List.mem_flatMap]
    constructor
    · rintro ⟨root, mem, reached⟩
      exact .trans (.root mem) ((single root mem a).mp reached)
    · intro reached
      obtain ⟨root, mem, reached⟩ := reached.from_one
      exact ⟨root, mem, (single root mem a).mpr reached⟩
  have members : ∀ a, a ∈ (roots.flatMap fun root => slice [root]).dedup.mergeSort
      (fun a b => a.seq ≤ b.seq) ↔ Reached roots a := by
    intro a
    rw [List.mem_mergeSort, List.mem_dedup]
    exact union a
  refine (slice_older roots).eq_of_mem_iff ?_ fun a => ?_
  · have sorted : ((roots.flatMap fun root => slice [root]).dedup.mergeSort
        fun a b => a.seq ≤ b.seq).Pairwise fun a b => decide (a.seq ≤ b.seq) :=
      List.pairwise_mergeSort (fun a b c => by simpa using Nat.le_trans)
        (fun a b => by simpa using Nat.le_total a.seq b.seq) _
    have once := (List.mergeSort_perm (roots.flatMap fun root => slice [root]).dedup
      fun a b => decide (a.seq ≤ b.seq)).nodup_iff.mpr (List.nodup_dedup _)
    refine (sorted.and once).imp_of_mem fun {a b} memA memB h => ?_
    have inA := ((members a).mp memA).mem built inside
    have inB := ((members b).mp memB).mem built inside
    have le : a.seq ≤ b.seq := by simpa using h.1
    exact Nat.lt_of_le_of_ne le fun same => h.2 (built.unique a inA b inB same)
  · rw [mem_slice_iff built.told inside, members]

end

/-! ### Being computed from one another -/

/-- One node depends on another just if it was computed from that, directly or not, or is it. -/
theorem dependsOn_iff {made : List (Node V)} (built : Built made) {a b : Node V} (ha : a ∈ made)
    (hb : b ∈ made) : a.dependsOn b = true ↔ Reached [a] b := by
  have inside : ∀ root ∈ [a], root ∈ made := fun root mem => List.mem_singleton.mp mem ▸ ha
  rw [← mem_slice_iff built.told inside, mem_slice, dependsOn,
    Std.TreeMap.contains_eq_isSome_getElem?, Option.isSome_iff_exists]
  constructor
  · rintro ⟨other, there⟩
    have reached : Reached [a] other := reached_of_mem_slice (mem_slice.mpr ⟨_, there⟩)
    have number : other.seq = b.seq := seq_of_gather_empty there
    rw [built.unique other (reached.mem built inside) b hb number] at there
    exact ⟨b.seq, there⟩
  · rintro ⟨k, there⟩
    rw [seq_of_gather_empty there]
    exact ⟨b, there⟩

section

variable {made : List (Node V)} (built : Built made)

include built

theorem dependsOn_trans {a b c : Node V} (ha : a ∈ made) (hb : b ∈ made) (hc : c ∈ made)
    (first : a.dependsOn b = true) (second : b.dependsOn c = true) : a.dependsOn c = true := by
  rw [dependsOn_iff built ha hb] at first
  rw [dependsOn_iff built hb hc] at second
  rw [dependsOn_iff built ha hc]
  exact first.trans second

/-- Of two nodes one is older, so they are not computed from one another. -/
theorem dependsOn_antisymm {a b : Node V} (ha : a ∈ made) (hb : b ∈ made)
    (first : a.dependsOn b = true) (second : b.dependsOn a = true) : a = b := by
  rw [dependsOn_iff built ha hb] at first
  rw [dependsOn_iff built hb ha] at second
  rcases first.eq_or_lt built ha with same | below
  · exact same.symm
  · rcases second.eq_or_lt built hb with same | above
    · exact same
    · omega

end

open Classical in
/-- The slice of some nodes is found when the loop has passed once for each of them and once for each
    origin in it. It has what is reached from them, each node once and after its origins; it is the same
    for the same set of nodes, is made up of the slices of each of them, and is its own slice. And one
    node depends on another just if it reaches it, which orders the nodes. -/
theorem slice_sorts_reached {made : List (Node V)} (built : Built made) :
    (∀ roots : List (Node V), (∀ root ∈ roots, root ∈ made) →
      (∃ found, pass^[roots.length + ((slice roots).map (·.origins.length)).sum] ({}, roots) =
          (found, []) ∧ slice roots = found.toList.map Prod.snd) ∧
        (∀ a, a ∈ slice roots ↔ Reached roots a) ∧
        (slice roots).Nodup ∧
        (slice roots).Pairwise (fun a b => a.seq < b.seq) ∧
        (∀ before a after, slice roots = before ++ a :: after → ∀ o ∈ a.origins, o ∈ before) ∧
        (∀ others, (∀ a, a ∈ others ↔ a ∈ roots) → slice others = slice roots) ∧
        slice roots = (roots.flatMap fun root => slice [root]).dedup.mergeSort
          (fun a b => a.seq ≤ b.seq) ∧
        slice (slice roots) = slice roots) ∧
      (∀ a ∈ made, ∀ b ∈ made, a.dependsOn b = true ↔ Reached [a] b) ∧
      (∀ a ∈ made, a.dependsOn a = true) ∧
      (∀ a ∈ made, ∀ b ∈ made, ∀ c ∈ made,
        a.dependsOn b = true → b.dependsOn c = true → a.dependsOn c = true) ∧
      ∀ a ∈ made, ∀ b ∈ made, a.dependsOn b = true → b.dependsOn a = true → a = b := by
  refine ⟨fun roots inside => ?_, ?_, ?_, ?_, ?_⟩
  · have older := slice_older roots
    refine ⟨⟨_, pass_slice roots, rfl⟩, fun a => mem_slice_iff built.told inside, ?_, older, ?_, ?_,
      slice_eq_union built inside, slice_slice built inside⟩
    · refine older.imp fun {a b} below same => ?_
      rw [same] at below
      exact Nat.lt_irrefl b.seq below
    · intro before a after split o used
      exact origin_before built inside split used
    · intro others same
      exact slice_of_mem_iff built inside same
  · intro a ha b hb
    exact dependsOn_iff built ha hb
  · intro a ha
    exact (dependsOn_iff built ha ha).mpr (.root List.mem_cons_self)
  · intro a ha b hb c hc
    exact dependsOn_trans built ha hb hc
  · intro a ha b hb
    exact dependsOn_antisymm built ha hb

/-! ### A sum of a value and itself -/

namespace Double

def operand : Node Nat := ⟨1, none, some 4, []⟩

def double : Node Nat := ⟨2, none, some 8, [operand, operand]⟩

def total : Node Nat := ⟨5, none, some 12, [operand, double]⟩

theorem built : Built [total, double, operand] := by
  refine .cons (.cons (.cons .nil ?_ ?_) ?_ ?_) ?_ ?_ <;> simp [operand, double, total]

theorem slice_sorts_reached_total : slice [total, double, total] = slice [double, total] ∧
    (∀ a, a ∈ slice [double] ↔ Reached [double] a) ∧
    total.dependsOn operand = true ∧ operand.dependsOn total = false := by
  obtain ⟨slices, depends, refl, -, antisymm⟩ := slice_sorts_reached built
  have inside : ∀ root ∈ [double, total], root ∈ [total, double, operand] := by simp
  have insideOne : ∀ root ∈ [double], root ∈ [total, double, operand] := by simp
  have below : total.dependsOn operand = true :=
    (depends total (by simp) operand (by simp)).mpr
      (.origin (.root List.mem_cons_self) List.mem_cons_self)
  refine ⟨?_, (slices [double] insideOne).2.1, below, ?_⟩
  · obtain ⟨-, -, -, -, -, same, -, -⟩ := slices [double, total] inside
    exact same [total, double, total] (by simp)
  · by_contra above
    have same := antisymm total (by simp) operand (by simp) below (by simpa using above)
    exact absurd (congrArg seq same) (by decide)

end Double

end Lineage.Node

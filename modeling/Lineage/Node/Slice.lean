import Std.Data.TreeMap
import Lineage.Node

/-!
# Backward slices

The backward slice of some nodes is everything they were computed from, themselves included, each node
once and oldest first. It is found by a work list: a node already seen is passed over, any other is
taken and its origins are put on the list.
-/

namespace Lineage.Node

variable {V : Type}

theorem sizeOf_append (xs ys : List (Node V)) :
    sizeOf (xs ++ ys) + 1 = sizeOf xs + sizeOf ys := by
  induction xs with
  | nil => simp; omega
  | cons x xs ih => simp only [List.cons_append, List.cons.sizeOf_spec]; omega

theorem sizeOf_expand_lt (node : Node V) (rest : List (Node V)) :
    sizeOf (node.origins ++ rest) < sizeOf (node :: rest) := by
  have := sizeOf_append node.origins rest
  cases node
  simp only [mk.sizeOf_spec, List.cons.sizeOf_spec] at *
  omega

/-- Adds the nodes reachable from the work list to those `found`, which are kept by number. -/
def gather (found : Std.TreeMap Nat (Node V)) : List (Node V) → Std.TreeMap Nat (Node V)
  | [] => found
  | node :: rest =>
      if found.contains node.seq then gather found rest
      else gather (found.insert node.seq node) (node.origins ++ rest)
  termination_by work => sizeOf work
  decreasing_by
    · simp only [List.cons.sizeOf_spec]; omega
    · exact sizeOf_expand_lt node rest

/-- Everything the `roots` were computed from, oldest first. -/
def slice (roots : List (Node V)) : List (Node V) := (gather {} roots).toList.map Prod.snd

/-- `node` was computed from `ancestor`, directly or through other nodes, or is `ancestor`. -/
def dependsOn (node ancestor : Node V) : Bool := (gather {} [node]).contains ancestor.seq

end Lineage.Node
